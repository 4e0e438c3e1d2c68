import Snowside.Collections.Heap
import Snowside.Partial.Maps
import Snowside.Evm.Header

/-! The order in which the worker takes transactions: a heap of the next transaction of each account. -/

set_option autoImplicit false

namespace Snowside.PriceAndNonce

open Evm (Address)
open Maps (Map)

variable {T : Type}

/-- What the pool offers of a transaction. -/
structure LazyTransaction (T : Type) where
  /-- `Resolve`: nothing, if the pool has lost the transaction. -/
  resolve : Option T
  time : Int
  gasFeeCap : Nat
  gasTipCap : Nat
  gas : UInt64
  blobGas : UInt64
  deriving DecidableEq, Repr

structure TxWithMinerFee (T : Type) where
  tx : LazyTransaction T
  sender : Address
  fees : Nat
  deriving DecidableEq, Repr

/-- Nothing for a transaction that cannot pay the base fee. -/
def newTxWithMinerFee (tx : LazyTransaction T) (sender : Address) (baseFee : Option Nat) : Option (TxWithMinerFee T) :=
  match baseFee with
  | none => some { tx, sender, fees := tx.gasTipCap }
  | some baseFee =>
      if tx.gasFeeCap < baseFee then none
      else
        let tip := tx.gasFeeCap - baseFee
        some { tx, sender, fees := if tx.gasTipCap < tip then tx.gasTipCap else tip }

/-- The order of the heap: the higher fee first, then the earlier time. -/
def less (first second : TxWithMinerFee T) : Bool :=
  if first.fees = second.fees then first.tx.time < second.tx.time else second.fees < first.fees

structure TransactionsByPriceAndNonce (T : Type) where
  txs : Map Address (List (LazyTransaction T))
  heads : List (TxWithMinerFee T)
  baseFee : Option Nat

namespace TransactionsByPriceAndNonce

/-- The heads of the accounts. An account without transactions is a panic. -/
def collectHeads (baseFee : Option Nat) : List ((_ : Address) × List (LazyTransaction T)) →
    Option (List (TxWithMinerFee T) × Map Address (List (LazyTransaction T)))
  | [] => some ([], ∅)
  | ⟨_, []⟩ :: _ => none
  | ⟨sender, tx :: later⟩ :: rest => do
      let (heads, txs) ← collectHeads baseFee rest
      match newTxWithMinerFee tx sender baseFee with
      | some wrapped => return (wrapped :: heads, txs.insert sender later)
      | none => return (heads, txs)

/-- newTransactionsByPriceAndNonce, with the accounts in the order of the iteration. -/
def new (txs : Map Address (List (LazyTransaction T))) (baseFee : Option Nat) : Option (TransactionsByPriceAndNonce T) := do
  let (heads, txs) ← collectHeads baseFee txs.entries
  return { txs, heads := Heap.init less heads, baseFee }

def peek (t : TransactionsByPriceAndNonce T) : Option (LazyTransaction T × Nat) := t.heads.head?.map fun head => (head.tx, head.fees)

/-- Pop: the account of the best head is done. A panic if there is none. -/
def pop (t : TransactionsByPriceAndNonce T) : Option (TransactionsByPriceAndNonce T) :=
  (Heap.pop less t.heads).map fun popped => { t with heads := popped.2 }

/-- Shift: the next transaction of the account of the best head, if it can pay the base fee. -/
def shift (t : TransactionsByPriceAndNonce T) : Option (TransactionsByPriceAndNonce T) := do
  let head ← t.heads.head?
  match t.txs.lookup head.sender with
  | some (tx :: later) =>
      match newTxWithMinerFee tx head.sender t.baseFee with
      | some wrapped =>
          return { t with heads := Heap.fix less (t.heads.set 0 wrapped) 0, txs := t.txs.insert head.sender later }
      | none => t.pop
  | _ => t.pop

def empty (t : TransactionsByPriceAndNonce T) : Bool := t.heads.isEmpty

def clear (t : TransactionsByPriceAndNonce T) : TransactionsByPriceAndNonce T := { t with heads := [], txs := ∅ }

end TransactionsByPriceAndNonce

/-! ## What is in line -/

/-- A transaction that can pay the base fee. -/
def Payable (baseFee : Option Nat) (tx : LazyTransaction T) : Bool := baseFee.all (· ≤ tx.gasFeeCap)

/-- What a transaction pays the miner for each unit of gas. -/
def effectiveTip (baseFee : Option Nat) (tx : LazyTransaction T) : Nat :=
  match baseFee with
  | none => tx.gasTipCap
  | some baseFee => min tx.gasTipCap (tx.gasFeeCap - baseFee)

/-- A transaction that goes before another: it pays more, or as much and was seen earlier. -/
def Precedes (baseFee : Option Nat) (first second : LazyTransaction T) : Prop :=
  effectiveTip baseFee second < effectiveTip baseFee first ∨
    effectiveTip baseFee first = effectiveTip baseFee second ∧ first.time < second.time

/-- The transactions of each account that are still in line. -/
abbrev Queues (T : Type) : Type := Address → List (LazyTransaction T)

/-- Up to the first one that cannot pay the base fee. -/
def payable (baseFee : Option Nat) (txs : List (LazyTransaction T)) : List (LazyTransaction T) := txs.takeWhile (Payable baseFee)

inductive Move where
  | shift
  | pop
  deriving DecidableEq, Repr

/-- What a move leaves of the line whose first transaction was taken. -/
def Move.leaves : Move → List (LazyTransaction T) → List (LazyTransaction T)
  | .shift, later => later
  | .pop, _ => []

structure Pick (T : Type) where
  sender : Address
  tx : LazyTransaction T
  move : Move

/-- Picks from the fronts of the lines, none of which another front precedes. -/
inductive Greedy (baseFee : Option Nat) : Queues T → List (Pick T) → Queues T → Prop where
  | stop (queues : Queues T) : Greedy baseFee queues [] queues
  | pick {queues last : Queues T} {sender : Address} {tx : LazyTransaction T} {later : List (LazyTransaction T)} {move : Move}
      {picks : List (Pick T)} : queues sender = tx :: later →
      (∀ other front rest, queues other = front :: rest → ¬ Precedes baseFee front tx) →
      Greedy baseFee (Function.update queues sender (move.leaves later)) picks last →
      Greedy baseFee queues (⟨sender, tx, move⟩ :: picks) last

/-! ## The heap gives the fronts of the lines -/

section

variable {baseFee : Option Nat} {tx : LazyTransaction T} {sender : Address} {wrapped : TxWithMinerFee T}

theorem less_weak : Heap.Weak (less (T := T)) where
  asymm first second before := by
    unfold less at *
    split at before
    · next same =>
      rw [if_pos same.symm]
      simp only [decide_eq_true_eq, decide_eq_false_iff_not] at *
      omega
    · next apart =>
      rw [if_neg (Ne.symm apart)]
      simp only [decide_eq_true_eq, decide_eq_false_iff_not] at *
      omega
  trans first second third := by
    unfold less
    intro upper lower
    split at upper <;> split at lower <;> split <;> simp only [decide_eq_false_iff_not] at * <;> omega

theorem newTxWithMinerFee_eq_some : newTxWithMinerFee tx sender baseFee = some wrapped ↔
    Payable baseFee tx = true ∧ wrapped = ⟨tx, sender, effectiveTip baseFee tx⟩ := by
  cases baseFee with
  | none => simp [newTxWithMinerFee, Payable, effectiveTip, eq_comm]
  | some baseFee =>
    simp only [newTxWithMinerFee, Payable, effectiveTip, Option.all_some, decide_eq_true_eq]
    by_cases low : tx.gasFeeCap < baseFee
    · simp [low]
    · rw [if_neg low, min_def]
      have enough : baseFee ≤ tx.gasFeeCap := by omega
      by_cases tip : tx.gasTipCap < tx.gasFeeCap - baseFee
      · simp [enough, tip, tip.le, eq_comm]
      · by_cases same : tx.gasTipCap ≤ tx.gasFeeCap - baseFee
        · have equal : tx.gasFeeCap - baseFee = tx.gasTipCap := by omega
          simp [enough, equal, eq_comm]
        · simp [enough, tip, same, eq_comm]

theorem newTxWithMinerFee_eq_none : newTxWithMinerFee tx sender baseFee = none ↔ Payable baseFee tx = false := by
  rw [Option.eq_none_iff_forall_ne_some, Bool.eq_false_iff]
  constructor
  · intro never payable
    exact never _ (newTxWithMinerFee_eq_some.mpr ⟨payable, rfl⟩)
  · intro poor wrapped made
    exact poor (newTxWithMinerFee_eq_some.mp made).1

namespace TransactionsByPriceAndNonce

/-- One head for each account, wrapped, in a heap. -/
structure Sound (t : TransactionsByPriceAndNonce T) : Prop where
  ordered : Heap.Ordered less t.heads
  senders : (t.heads.map TxWithMinerFee.sender).Nodup
  wrapped : ∀ head ∈ t.heads, newTxWithMinerFee head.tx head.sender t.baseFee = some head

/-- An account's transactions that are still in line: its head and those after it. -/
def waiting (t : TransactionsByPriceAndNonce T) : Queues T := fun account =>
  match t.heads.find? (·.sender = account) with
  | some head => head.tx :: payable t.baseFee ((t.txs.lookup account).getD [])
  | none => []

variable {t : TransactionsByPriceAndNonce T} {head : TxWithMinerFee T} {account : Address}

theorem find_head (distinct : (t.heads.map TxWithMinerFee.sender).Nodup) (member : head ∈ t.heads) :
    t.heads.find? (·.sender = head.sender) = some head := by
  cases found : t.heads.find? (·.sender = head.sender) with
  | none =>
    have never := List.find?_eq_none.mp found head member
    simp at never
  | some other =>
    have same : other.sender = head.sender := by simpa using List.find?_some found
    rw [List.inj_on_of_nodup_map distinct (List.mem_of_find?_eq_some found) member same]

theorem Sound.waiting_of_mem (sound : Sound t) (member : head ∈ t.heads) :
    t.waiting head.sender = head.tx :: payable t.baseFee ((t.txs.lookup head.sender).getD []) := by
  unfold waiting
  rw [find_head sound.senders member]

theorem waiting_of_absent (absent : account ∉ t.heads.map TxWithMinerFee.sender) : t.waiting account = [] := by
  unfold waiting
  have none_found : t.heads.find? (·.sender = account) = none := by
    rw [List.find?_eq_none]
    intro head member
    simp only [decide_eq_true_eq]
    intro same
    exact absent (same ▸ List.mem_map_of_mem member)
  rw [none_found]

theorem Sound.exists_head (sound : Sound t) {front : LazyTransaction T} {later : List (LazyTransaction T)}
    (line : t.waiting account = front :: later) : ∃ head ∈ t.heads, head.sender = account ∧ head.tx = front := by
  by_cases present : account ∈ t.heads.map TxWithMinerFee.sender
  · obtain ⟨head, member, rfl⟩ := List.mem_map.mp present
    rw [sound.waiting_of_mem member] at line
    exact ⟨head, member, rfl, (List.cons.inj line).1⟩
  · rw [waiting_of_absent present] at line
    cases line

/-- No front of a line precedes the first element of the heap. -/
theorem Sound.first_best (sound : Sound t) (first : t.heads.head? = some head) {front : LazyTransaction T}
    {later : List (LazyTransaction T)} (line : t.waiting account = front :: later) : ¬ Precedes t.baseFee front head.tx := by
  obtain ⟨other, member, -, rfl⟩ := sound.exists_head line
  have behind := sound.ordered.first less_weak (List.head?_eq_getElem?.symm.trans first) member
  have here : head ∈ t.heads := List.mem_of_mem_head? first
  have fees := congrArg TxWithMinerFee.fees (newTxWithMinerFee_eq_some.mp (sound.wrapped head here)).2
  have fees' := congrArg TxWithMinerFee.fees (newTxWithMinerFee_eq_some.mp (sound.wrapped other member)).2
  simp only at fees fees'
  unfold less at behind
  rintro (more | ⟨same, earlier⟩)
  · rw [if_neg (by omega)] at behind
    simp only [decide_eq_false_iff_not] at behind
    omega
  · rw [if_pos (by omega)] at behind
    simp only [decide_eq_false_iff_not] at behind
    omega

theorem Sound.pop (sound : Sound t) (first : t.heads.head? = some head) :
    ∃ next, t.pop = some next ∧ Sound next ∧ next.baseFee = t.baseFee ∧
      next.waiting = Function.update t.waiting head.sender [] := by
  obtain ⟨rest, popped, perm, ordered⟩ := sound.ordered.pop less_weak (List.head?_eq_getElem?.symm.trans first)
  have senders : head.sender ∉ rest.map TxWithMinerFee.sender ∧ (rest.map TxWithMinerFee.sender).Nodup := by
    have distinct := (perm.map TxWithMinerFee.sender).nodup_iff.mp sound.senders
    rwa [List.map_cons, List.nodup_cons] at distinct
  have next : Sound { t with heads := rest } :=
    ⟨ordered, senders.2, fun other member => sound.wrapped other (perm.mem_iff.mpr (List.mem_cons_of_mem head member))⟩
  refine ⟨{ t with heads := rest }, ?_, next, rfl, funext fun account => ?_⟩
  · unfold TransactionsByPriceAndNonce.pop
    rw [popped]
    rfl
  · by_cases here : account = head.sender
    · subst here
      rw [Function.update_self]
      exact waiting_of_absent senders.1
    · rw [Function.update_of_ne here]
      by_cases present : account ∈ rest.map TxWithMinerFee.sender
      · obtain ⟨other, member, rfl⟩ := List.mem_map.mp present
        rw [next.waiting_of_mem member, sound.waiting_of_mem (perm.mem_iff.mpr (List.mem_cons_of_mem head member))]
      · rw [waiting_of_absent present, waiting_of_absent fun there => ?_]
        rcases List.mem_cons.mp ((perm.map TxWithMinerFee.sender).mem_iff.mp there) with same | inside
        · exact here same
        · exact present inside

theorem payable_cons (payable : Payable baseFee tx = true) (later : List (LazyTransaction T)) :
    PriceAndNonce.payable baseFee (tx :: later) = tx :: PriceAndNonce.payable baseFee later := List.takeWhile_cons_of_pos payable

theorem payable_cons_of_not (poor : Payable baseFee tx = false) (later : List (LazyTransaction T)) :
    payable baseFee (tx :: later) = [] := List.takeWhile_cons_of_neg (by rw [poor]; exact Bool.false_ne_true)

theorem Sound.shift (sound : Sound t) (first : t.heads.head? = some head) :
    ∃ next, t.shift = some next ∧ Sound next ∧ next.baseFee = t.baseFee ∧
      next.waiting = Function.update t.waiting head.sender (t.waiting head.sender).tail := by
  obtain ⟨tail, heads⟩ : ∃ tail, t.heads = head :: tail := List.head?_eq_some_iff.mp first
  have member : head ∈ t.heads := heads ▸ List.mem_cons_self ..
  have line := sound.waiting_of_mem member
  -- Where nothing payable follows, the account leaves the heap.
  have alone : payable t.baseFee ((t.txs.lookup head.sender).getD []) = [] → ∃ next, t.pop = some next ∧ Sound next ∧
      next.baseFee = t.baseFee ∧ next.waiting = Function.update t.waiting head.sender (t.waiting head.sender).tail := by
    intro nothing
    rw [line, nothing]
    exact sound.pop first
  unfold TransactionsByPriceAndNonce.shift
  rw [first]
  simp only [Option.bind_eq_bind, Option.bind_some]
  split
  · next tx later queued =>
    split
    · next wrapped made =>
      obtain ⟨payable, rfl⟩ := newTxWithMinerFee_eq_some.mp made
      have replaced : t.heads.set 0 ⟨tx, head.sender, effectiveTip t.baseFee tx⟩ =
          ⟨tx, head.sender, effectiveTip t.baseFee tx⟩ :: tail := by rw [heads, List.set_cons_zero]
      have perm := Heap.fix_perm less (t.heads.set 0 ⟨tx, head.sender, effectiveTip t.baseFee tx⟩) 0
      have senders : (head.sender :: tail.map TxWithMinerFee.sender).Nodup := by
        have distinct := sound.senders
        rwa [heads, List.map_cons] at distinct
      have next : Sound { t with
          heads := Heap.fix less (t.heads.set 0 ⟨tx, head.sender, effectiveTip t.baseFee tx⟩) 0
          txs := t.txs.insert head.sender later } := by
        refine ⟨sound.ordered.fix less_weak (by rw [heads]; exact Nat.succ_pos _) _, ?_, fun other inside => ?_⟩
        · rw [(perm.map _).nodup_iff, replaced, List.map_cons]
          exact senders
        · rw [perm.mem_iff, replaced] at inside
          rcases List.mem_cons.mp inside with rfl | behind
          · exact made
          · exact sound.wrapped other (heads ▸ List.mem_cons_of_mem head behind)
      refine ⟨_, rfl, next, rfl, funext fun account => ?_⟩
      by_cases here : account = head.sender
      · subst here
        have inside : (⟨tx, head.sender, effectiveTip t.baseFee tx⟩ : TxWithMinerFee T) ∈
            Heap.fix less (t.heads.set 0 ⟨tx, head.sender, effectiveTip t.baseFee tx⟩) 0 := by
          rw [perm.mem_iff, replaced]
          exact List.mem_cons_self ..
        rw [Function.update_self, line, queued, List.tail_cons, Option.getD_some, payable_cons payable]
        have started := next.waiting_of_mem inside
        rw [AList.lookup_insert, Option.getD_some] at started
        exact started
      · rw [Function.update_of_ne here]
        by_cases present : account ∈ tail.map TxWithMinerFee.sender
        · obtain ⟨other, behind, rfl⟩ := List.mem_map.mp present
          have kept := next.waiting_of_mem (perm.mem_iff.mpr (replaced ▸ List.mem_cons_of_mem _ behind))
          rw [AList.lookup_insert_ne here] at kept
          rw [kept, sound.waiting_of_mem (heads ▸ List.mem_cons_of_mem head behind)]
        · rw [waiting_of_absent fun there => ?_, waiting_of_absent fun there => ?_]
          · rw [heads, List.map_cons] at there
            exact (List.mem_cons.mp there).elim here present
          · rw [(perm.map TxWithMinerFee.sender).mem_iff, replaced, List.map_cons] at there
            exact (List.mem_cons.mp there).elim here present
    · next poor =>
      exact alone (by rw [queued]; exact payable_cons_of_not (newTxWithMinerFee_eq_none.mp poor) later)
  · next last =>
    refine alone ?_
    cases queued : t.txs.lookup head.sender with
    | none => rfl
    | some later =>
      cases later with
      | nil => rfl
      | cons tx later => exact absurd queued (last tx later)

/-- The heads and what is behind them, for the accounts of a map. -/
structure Collected (baseFee : Option Nat) (entries : List ((_ : Address) × List (LazyTransaction T)))
    (heads : List (TxWithMinerFee T)) (txs : Map Address (List (LazyTransaction T))) : Prop where
  senders : (heads.map TxWithMinerFee.sender).Sublist entries.keys
  wrapped : ∀ head ∈ heads, newTxWithMinerFee head.tx head.sender baseFee = some head
  lines : ∀ account tx later, ⟨account, tx :: later⟩ ∈ entries →
    if Payable baseFee tx then ⟨tx, account, effectiveTip baseFee tx⟩ ∈ heads ∧ txs.lookup account = some later
    else account ∉ heads.map TxWithMinerFee.sender

theorem collectHeads_collected (entries : List ((_ : Address) × List (LazyTransaction T))) (distinct : entries.NodupKeys)
    (filled : ∀ entry ∈ entries, entry.2 ≠ []) :
    ∃ heads txs, collectHeads baseFee entries = some (heads, txs) ∧ Collected baseFee entries heads txs := by
  induction entries with
  | nil => exact ⟨[], ∅, rfl, ⟨.refl _, List.forall_mem_nil _, fun _ _ _ member => absurd member (List.not_mem_nil)⟩⟩
  | cons entry rest ih =>
    obtain ⟨absent, distinct⟩ := List.nodupKeys_cons.mp distinct
    obtain ⟨heads, txs, collected, sound⟩ := ih distinct fun entry member => filled entry (List.mem_cons_of_mem _ member)
    rcases entry with ⟨sender, list⟩
    cases list with
    | nil => exact absurd rfl (filled _ (List.mem_cons_self ..))
    | cons tx later =>
      have elsewhere : ∀ account list, ⟨account, list⟩ ∈ rest → account ≠ sender := by
        intro account list member same
        exact absent (List.mem_map.mpr ⟨_, member, same⟩)
      unfold collectHeads
      rw [collected]
      cases made : newTxWithMinerFee tx sender baseFee with
      | none =>
        refine ⟨heads, txs, by simp, sound.senders.cons sender, sound.wrapped, fun account front behind member => ?_⟩
        rcases List.mem_cons.mp member with same | inside
        · cases same
          rw [newTxWithMinerFee_eq_none.mp made, if_neg Bool.false_ne_true]
          exact fun there => absent (sound.senders.subset there)
        · exact sound.lines account front behind inside
      | some wrapped =>
        obtain ⟨payable, rfl⟩ := newTxWithMinerFee_eq_some.mp made
        refine ⟨⟨tx, sender, effectiveTip baseFee tx⟩ :: heads, txs.insert sender later, by simp,
          by rw [List.keys_cons, List.map_cons]; exact sound.senders.cons_cons sender, ?_, fun account front behind member => ?_⟩
        · exact List.forall_mem_cons.mpr ⟨made, sound.wrapped⟩
        · rcases List.mem_cons.mp member with same | inside
          · cases same
            rw [if_pos payable]
            exact ⟨List.mem_cons_self .., AList.lookup_insert _⟩
          · have apart := elsewhere account _ inside
            have line := sound.lines account front behind inside
            split
            · next able =>
              rw [if_pos able] at line
              exact ⟨List.mem_cons_of_mem _ line.1, (AList.lookup_insert_ne apart).trans line.2⟩
            · next unable =>
              rw [if_neg unable] at line
              rw [List.map_cons, List.mem_cons, not_or]
              exact ⟨apart, line⟩

variable (baseFee) in
theorem new_sound {txs : Map Address (List (LazyTransaction T))} (filled : ∀ account, txs.lookup account ≠ some []) :
    ∃ t, new txs baseFee = some t ∧ Sound t ∧ t.baseFee = baseFee ∧
      t.waiting = fun account => payable baseFee ((txs.lookup account).getD []) := by
  have each : ∀ entry ∈ txs.entries, entry.2 ≠ [] := by
    intro entry member none_left
    exact filled entry.1 (none_left ▸ AList.mem_lookup_iff.mpr member)
  obtain ⟨heads, later, collected, sound⟩ := collectHeads_collected txs.entries txs.nodupKeys each
  have perm := Heap.init_perm less heads
  have next : Sound ({ txs := later, heads := Heap.init less heads, baseFee } : TransactionsByPriceAndNonce T) :=
    ⟨Heap.ordered_init less_weak heads, (perm.map _).nodup_iff.mpr (sound.senders.nodup txs.nodupKeys),
      fun head member => sound.wrapped head (perm.mem_iff.mp member)⟩
  refine ⟨_, by unfold new; rw [collected]; rfl, next, rfl, funext fun account => ?_⟩
  cases queued : txs.lookup account with
  | none =>
    refine waiting_of_absent fun there => ?_
    have inside := sound.senders.subset ((perm.map TxWithMinerFee.sender).mem_iff.mp there)
    exact AList.lookup_eq_none.mp queued (AList.mem_keys.mpr inside)
  | some list =>
    cases list with
    | nil => exact absurd queued (filled account)
    | cons tx behind =>
      have line := sound.lines account tx behind (AList.mem_lookup_iff.mp queued)
      cases able : Payable baseFee tx with
      | true =>
        rw [if_pos able] at line
        have started := next.waiting_of_mem (perm.mem_iff.mpr line.1)
        simp only [line.2, Option.getD_some] at started
        rw [Option.getD_some, payable_cons able]
        exact started
      | false =>
        rw [if_neg (by rw [able]; exact Bool.false_ne_true)] at line
        rw [Option.getD_some, payable_cons_of_not able]
        exact waiting_of_absent fun there => line ((perm.map TxWithMinerFee.sender).mem_iff.mp there)

/-! ## Runs -/

def advance (t : TransactionsByPriceAndNonce T) : Move → Option (TransactionsByPriceAndNonce T)
  | .shift => t.shift
  | .pop => t.pop

/-- Peek and one move after the other, as long as Peek gives something. -/
def run (t : TransactionsByPriceAndNonce T) : List Move → Option (List (Pick T) × TransactionsByPriceAndNonce T)
  | [] => some ([], t)
  | move :: moves =>
      match t.heads.head? with
      | none => some ([], t)
      | some head => do
          let next ← t.advance move
          let (picks, last) ← next.run moves
          return (⟨head.sender, head.tx, move⟩ :: picks, last)

theorem Sound.advance (sound : Sound t) (first : t.heads.head? = some head) (move : Move) :
    ∃ next, t.advance move = some next ∧ Sound next ∧ next.baseFee = t.baseFee ∧
      next.waiting = Function.update t.waiting head.sender (move.leaves (t.waiting head.sender).tail) := by
  cases move with
  | shift => exact sound.shift first
  | pop => exact sound.pop first

theorem Sound.run_greedy (sound : Sound t) (moves : List Move) : ∃ picks last, t.run moves = some (picks, last) ∧
    Greedy t.baseFee t.waiting picks last.waiting ∧ picks.map Pick.move <+: moves ∧
    (picks.length < moves.length → ∀ account, last.waiting account = []) := by
  induction moves generalizing t with
  | nil => exact ⟨[], t, rfl, .stop _, List.nil_prefix, fun short => absurd short (Nat.not_lt_zero _)⟩
  | cons move moves ih =>
    unfold run
    cases first : t.heads.head? with
    | none =>
      have nothing : t.heads = [] := List.head?_eq_none_iff.mp first
      refine ⟨[], t, rfl, .stop _, List.nil_prefix, fun _ account => waiting_of_absent ?_⟩
      rw [nothing]
      exact List.not_mem_nil
    | some head =>
      obtain ⟨next, moved, sound', baseFee, waiting⟩ := sound.advance first move
      obtain ⟨picks, last, ran, greedy, follows, done⟩ := ih sound'
      have line := sound.waiting_of_mem (List.mem_of_mem_head? first)
      refine ⟨⟨head.sender, head.tx, move⟩ :: picks, last, by simp [moved, ran], ?_, ?_, fun short => ?_⟩
      · rw [baseFee, waiting, line] at greedy
        exact .pick line (fun _ _ _ queued => sound.first_best first queued) greedy
      · exact List.cons_prefix_cons.mpr ⟨rfl, follows⟩
      · exact done (Nat.lt_of_succ_lt_succ short)

end TransactionsByPriceAndNonce

end

/-! ## What greedy picks keep -/

section

variable {baseFee : Option Nat} {queues last : Queues T} {picks : List (Pick T)}

/-- The picks of an account are its line from the front on, in order. -/
def taken (picks : List (Pick T)) (account : Address) : List (LazyTransaction T) :=
  (picks.filter (·.sender = account)).map Pick.tx

theorem Greedy.taken_prefix (greedy : Greedy baseFee queues picks last) (account : Address) :
    taken picks account <+: queues account := by
  induction greedy with
  | stop queues => exact List.nil_prefix
  | @pick queues last sender tx later move picks line best _ ih =>
    by_cases here : sender = account
    · subst here
      have rest : taken (⟨sender, tx, move⟩ :: picks) sender = tx :: taken picks sender := by simp [taken]
      rw [rest, line]
      rw [Function.update_self] at ih
      refine List.cons_prefix_cons.mpr ⟨rfl, ?_⟩
      cases move with
      | shift => exact ih
      | pop => exact ih.trans List.nil_prefix
    · have rest : taken (⟨sender, tx, move⟩ :: picks) account = taken picks account := by simp [taken, here]
      rw [rest]
      rwa [Function.update_of_ne (Ne.symm here)] at ih

/-- Without a Pop, what was taken and what is left make up the line. -/
theorem Greedy.taken_append (greedy : Greedy baseFee queues picks last) (shifts : ∀ pick ∈ picks, pick.move = .shift)
    (account : Address) : taken picks account ++ last account = queues account := by
  induction greedy with
  | stop queues => rfl
  | @pick queues last sender tx later move picks line best _ ih =>
    obtain ⟨same, others⟩ := List.forall_mem_cons.mp shifts
    obtain rfl : move = .shift := same
    have ih := ih others
    by_cases here : sender = account
    · subst here
      have rest : taken (⟨sender, tx, .shift⟩ :: picks) sender = tx :: taken picks sender := by simp [taken]
      rw [rest, line, List.cons_append]
      rw [Function.update_self] at ih
      exact congrArg (tx :: ·) ih
    · have rest : taken (⟨sender, tx, .shift⟩ :: picks) account = taken picks account := by simp [taken, here]
      rw [rest]
      rwa [Function.update_of_ne (Ne.symm here)] at ih

theorem filled_of_entries {pending : Map Address (List (LazyTransaction T))} (each : ∀ entry ∈ pending.entries, entry.2 ≠ [])
    (account : Address) : pending.lookup account ≠ some [] :=
  fun empty => each _ (AList.mem_lookup_iff.mp empty) rfl

/-- Every account's transactions, up to the first that cannot pay the base fee. -/
def offered (baseFee : Option Nat) (txs : Map Address (List (LazyTransaction T))) : Queues T :=
  fun account => payable baseFee ((txs.lookup account).getD [])

/-- Whatever the worker does with each transaction, none is taken while a better one is in front of another line; what
is taken of an account is its line in order; and all of it is taken if nothing is dropped. -/
theorem offers_greedy (txs : Map Address (List (LazyTransaction T))) (baseFee : Option Nat)
    (filled : ∀ account, txs.lookup account ≠ some []) (moves : List Move) :
    ∃ t picks last, TransactionsByPriceAndNonce.new txs baseFee = some t ∧ t.run moves = some (picks, last) ∧
      picks.map Pick.move <+: moves ∧
      Greedy baseFee (offered baseFee txs) picks last.waiting ∧
      (picks.length < moves.length → ∀ account, last.waiting account = []) ∧
      (∀ account, taken picks account <+: offered baseFee txs account) ∧
      ((∀ pick ∈ picks, pick.move = .shift) → (∀ account, last.waiting account = []) →
        ∀ account, taken picks account = offered baseFee txs account) := by
  obtain ⟨t, made, sound, fee, waiting⟩ := TransactionsByPriceAndNonce.new_sound baseFee filled
  obtain ⟨picks, last, ran, greedy, follows, done⟩ := sound.run_greedy moves
  rw [fee, waiting] at greedy
  refine ⟨t, picks, last, made, ran, follows, greedy, done, greedy.taken_prefix, fun shifts nothing account => ?_⟩
  have all := greedy.taken_append shifts account
  rwa [nothing account, List.append_nil] at all

end

/-- Two accounts: the second transaction of the first account waits behind a cheaper one. -/
def sampleOffers : Map Address (List (LazyTransaction Nat)) :=
  let first : Map Address (List (LazyTransaction Nat)) :=
    AList.insert 1 [⟨some 10, 0, 50, 2, 21000, 0⟩, ⟨some 11, 1, 90, 9, 21000, 0⟩] ∅
  first.insert 2 [⟨some 20, 2, 60, 5, 21000, 0⟩]

theorem offers_greedy_sample : (∀ account, sampleOffers.lookup account ≠ some []) ∧
    ∃ t picks last, TransactionsByPriceAndNonce.new sampleOffers (some 45) = some t ∧
      t.run [.shift, .shift, .shift] = some (picks, last) ∧
      picks.map Pick.move <+: [.shift, .shift, .shift] ∧
      Greedy (some 45) (offered (some 45) sampleOffers) picks last.waiting ∧
      (picks.length < 3 → ∀ account, last.waiting account = []) ∧
      (∀ account, taken picks account <+: offered (some 45) sampleOffers account) ∧
      ((∀ pick ∈ picks, pick.move = .shift) → (∀ account, last.waiting account = []) →
        ∀ account, taken picks account = offered (some 45) sampleOffers account) :=
  have filled : ∀ account, sampleOffers.lookup account ≠ some [] := filled_of_entries (by decide)
  ⟨filled, offers_greedy sampleOffers (some 45) filled [.shift, .shift, .shift]⟩

example : ((TransactionsByPriceAndNonce.new sampleOffers (some 45)).bind (·.run [.shift, .shift, .shift])).map
    (fun ran => ran.1.map fun pick => pick.tx.resolve) = some [some 20, some 10, some 11] := by
  decide +kernel

end Snowside.PriceAndNonce
