import Snowside.TxPool.TxList

/-! All transactions of the pool by their hashes, the nonces that follow the pending ones, and the
remote transactions by their prices.
-/

set_option autoImplicit false

namespace Snowside.TxPool

open Evm (Address)
open Maps (Map)
open Precompile (Hash)

/-- `Sender`, which is the zero address where it fails. -/
def Transaction.from_ (tx : Transaction) : Address := tx.sender.getD 0

/-! ## The lookup -/

def txSlotSize : Nat := 32 * 1024

def numSlots (tx : Transaction) : Nat := (tx.size + txSlotSize - 1) / txSlotSize

structure Lookup where
  slots : Int
  locals : Map Hash Transaction
  remotes : Map Hash Transaction

def newLookup : Lookup := { slots := 0, locals := ∅, remotes := ∅ }

namespace Lookup

def get (t : Lookup) (hash : Hash) : Option Transaction := (t.locals.lookup hash).or (t.remotes.lookup hash)

def getRemote (t : Lookup) (hash : Hash) : Option Transaction := t.remotes.lookup hash

def add (t : Lookup) (tx : Transaction) (isLocal : Bool) : Lookup :=
  let t := { t with slots := t.slots + numSlots tx }
  if isLocal then { t with locals := t.locals.insert tx.hash tx } else { t with remotes := t.remotes.insert tx.hash tx }

def remove (t : Lookup) (hash : Hash) : Lookup :=
  match t.get hash with
  | none => t
  | some tx => { slots := t.slots - numSlots tx, locals := t.locals.erase hash, remotes := t.remotes.erase hash }

/-- `Range` over the remote transactions. -/
def rangeRemotes (ranges : Ranges) (t : Lookup) : List Transaction :=
  (ranges.hashes t.remotes.keys).filterMap t.remotes.lookup

/-- `RemoteToLocals`, with the number of those that migrate. -/
def remoteToLocals (ranges : Ranges) (t : Lookup) (isLocal : Transaction → Bool) : Nat × Lookup :=
  ((ranges.hashes t.remotes.keys).filter fun hash => (t.remotes.lookup hash).any isLocal).foldl
    (fun (migrated, t) hash => match t.remotes.lookup hash with
      | some tx => (migrated + 1, { t with locals := t.locals.insert hash tx, remotes := t.remotes.erase hash })
      | none => (migrated, t)) (0, t)

def remotesBelowTip (ranges : Ranges) (t : Lookup) (threshold : Nat) : List Transaction :=
  (t.rangeRemotes ranges).filter (·.gasTipCap < threshold)

end Lookup

/-! ## The nonces -/

structure Noncer where
  fallback : Address → Nat
  nonces : Map Address Nat

def newNoncer (fallback : Address → Nat) : Noncer := { fallback, nonces := ∅ }

namespace Noncer

/-- A nonce of the state is kept once it was read, unless it is zero. -/
def load (txn : Noncer) (addr : Address) : Noncer :=
  if txn.nonces.lookup addr = none ∧ txn.fallback addr ≠ 0 then
    { txn with nonces := txn.nonces.insert addr (txn.fallback addr) }
  else txn

def get (txn : Noncer) (addr : Address) : Nat × Noncer :=
  let txn := txn.load addr
  ((txn.nonces.lookup addr).getD 0, txn)

def set (txn : Noncer) (addr : Address) (nonce : Nat) : Noncer := { txn with nonces := txn.nonces.insert addr nonce }

def setIfLower (txn : Noncer) (addr : Address) (nonce : Nat) : Noncer :=
  let txn := txn.load addr
  if (txn.nonces.lookup addr).getD 0 ≤ nonce then txn else txn.set addr nonce

def setAll (txn : Noncer) (all : Map Address Nat) : Noncer := { txn with nonces := all }

end Noncer

/-! ## The prices -/

/-- `EffectiveGasTipValue`, which is negative for a fee cap below the base fee. -/
def effectiveGasTip (baseFee : Nat) (tx : Transaction) : Int := min (tx.gasTipCap : Int) ((tx.gasFeeCap : Int) - baseFee)

/-- `cmp` of a priceHeap. -/
def priceCmp (baseFee : Option Nat) (a b : Transaction) : Ordering :=
  let tips := baseFee.elim Ordering.eq fun baseFee => compare (effectiveGasTip baseFee a) (effectiveGasTip baseFee b)
  (tips.then (compare a.gasFeeCap b.gasFeeCap)).then (compare a.gasTipCap b.gasTipCap)

/-- `Less` of a priceHeap: the cheapest first, of equal ones the highest nonce. -/
def priceLess (baseFee : Option Nat) (a b : Transaction) : Bool :=
  match priceCmp baseFee a b with
  | .lt => true
  | .gt => false
  | .eq => b.nonce < a.nonce

/-- The floating heap goes by the fee caps, without a base fee. -/
structure PricedList where
  stales : Int
  baseFee : Option Nat
  urgent : List Transaction
  floating : List Transaction

def newPricedList : PricedList := { stales := 0, baseFee := none, urgent := [], floating := [] }

namespace PricedList

def put (l : PricedList) (tx : Transaction) (isLocal : Bool) : PricedList :=
  if isLocal then l else { l with urgent := Heap.push (priceLess l.baseFee) l.urgent tx }

/-- So many of the worst of a heap, in the order of the pops. -/
def popMany (less : Transaction → Transaction → Bool) : Nat → List Transaction → List Transaction × List Transaction
  | 0, heap => ([], heap)
  | count + 1, heap => match Heap.pop less heap with
    | some (tx, rest) =>
        let (popped, rest) := popMany less count rest
        (tx :: popped, rest)
    | none => ([], heap)

/-- `Reheap`: a fifth of the remote transactions, the worst of them, goes to the floating heap. -/
def reheap (ranges : Ranges) (all : Lookup) (l : PricedList) : PricedList :=
  let urgent := Heap.init (priceLess l.baseFee) (all.rangeRemotes ranges)
  let (floating, urgent) := popMany (priceLess l.baseFee) (urgent.length / 5) urgent
  { l with stales := 0, urgent, floating := Heap.init (priceLess none) floating }

def removed (ranges : Ranges) (all : Lookup) (l : PricedList) (count : Int) : PricedList :=
  let l := { l with stales := l.stales + count }
  if l.stales ≤ (((l.urgent.length + l.floating.length) / 4 : Nat) : Int) then l else l.reheap ranges all

/-- Stale heads leave a heap. -/
def dropStale (less : Transaction → Transaction → Bool) (all : Lookup) (heap : List Transaction) : Nat × List Transaction :=
  match _popped : Heap.pop less heap with
  | some (head, rest) =>
      if all.getRemote head.hash = none then
        let (count, heap) := dropStale less all rest
        (count + 1, heap)
      else (0, heap)
  | none => (0, heap)
  termination_by heap.length
  decreasing_by exact Heap.length_lt_of_pop _popped

/-- `underpricedFor` of a heap without stale heads. -/
def worse (baseFee : Option Nat) (heap : List Transaction) (tx : Transaction) : Bool :=
  heap.head?.any fun head => priceCmp baseFee head tx ≠ .lt

/-- `Underpriced`: worse than the worst of each heap that is not empty. -/
def underpriced (all : Lookup) (l : PricedList) (tx : Transaction) : Bool × PricedList :=
  let (count, urgent) := dropStale (priceLess l.baseFee) all l.urgent
  let l := { l with stales := l.stales - count, urgent }
  if worse l.baseFee l.urgent tx || l.urgent.isEmpty then
    let (count, floating) := dropStale (priceLess none) all l.floating
    let l := { l with stales := l.stales - count, floating }
    if worse none l.floating tx || l.floating.isEmpty then (! l.urgent.isEmpty || ! l.floating.isEmpty, l) else (false, l)
  else (false, l)

/-- The loop of `Discard`: how many slots are still missing at its end, and what is dropped. -/
def discardLoop (all : Lookup) (slots : Int) (l : PricedList) : Int × List Transaction × PricedList :=
  if 0 < slots then
    if l.floating.length * 4 < l.urgent.length then
      match _popped : Heap.pop (priceLess l.baseFee) l.urgent with
      | some (tx, urgent) =>
          if all.getRemote tx.hash = none then discardLoop all slots { l with stales := l.stales - 1, urgent }
          else discardLoop all slots { l with urgent, floating := Heap.push (priceLess none) l.floating tx }
      | none => (slots, [], l)
    else
      match _popped : Heap.pop (priceLess none) l.floating with
      | some (tx, floating) =>
          if all.getRemote tx.hash = none then discardLoop all slots { l with stales := l.stales - 1, floating }
          else
            let (slots, drop, l) := discardLoop all (slots - numSlots tx) { l with floating }
            (slots, tx :: drop, l)
      | none => (slots, [], l)
  else (slots, [], l)
  termination_by 2 * l.urgent.length + l.floating.length
  decreasing_by
    all_goals have shorter := Heap.length_lt_of_pop _popped
    all_goals try simp only [Heap.length_push]
    all_goals omega

/-- `Discard`: what is dropped, unless it does not make enough room. -/
def discard (all : Lookup) (l : PricedList) (slots : Int) (force : Bool) : List Transaction × Bool × PricedList :=
  let (slots, drop, l) := discardLoop all slots l
  if 0 < slots && ! force then
    ([], false, { l with urgent := drop.foldl (Heap.push (priceLess l.baseFee)) l.urgent })
  else (drop, true, l)

def setBaseFee (ranges : Ranges) (all : Lookup) (l : PricedList) (baseFee : Option Nat) : PricedList :=
  { l with baseFee }.reheap ranges all

end PricedList

end Snowside.TxPool
