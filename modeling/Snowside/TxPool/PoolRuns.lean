import Snowside.TxPool.Resetting
import Snowside.Chain.Runs

/-! Runs of the pool: its steps in any order, each of which ends with the books kept and the pending
transactions of every account turned or settled.
-/

set_option autoImplicit false

namespace Snowside.TxPool

open Evm (Address)
open Maps (Map lookup_insert_eq lookup_erase_eq)
open Precompile (Hash)
open TxList (costBound Leaves)
open Sorted (Increasing)
open Runs (System Reach)

/-- The pending transactions are in the order of their nonces, and of the kind that the chain has. -/
structure View.Listed (ok : Transaction → Prop) (view : View) : Prop where
  increasing : Increasing Transaction.nonce view.pending
  good : ∀ tx ∈ view.pending, ok tx

namespace Pool

variable {terms : Terms} {ok : Transaction → Prop} {addr : Address} {pool pool' : Pool} {tx : Transaction}
  {list list' : TxList} {chain : ChainView} {offered : ChainState → Prop} (moment : Moment)

/-! ## A step of the pool -/

/-- What a step does to the pending transactions: turns, with a reset among them or not. -/
inductive Passes (ok : Transaction → Prop) (offered : ChainState → Prop) (pool pool' : Pool) : Prop where
  | turned : Turned ok pool pool' → Passes ok offered pool pool'
  | reset {start between settled : Pool} : Start offered pool start → Turned ok start between →
      (∀ addr, (between.view addr).Listed ok) → Fixed between settled → (∀ addr, settled.view addr = between.resettled addr) →
      Turned ok settled pool' → Passes ok offered pool pool'

theorem Passes.turn {between : Pool} (passes : Passes ok offered pool between) (turned : Turned ok between pool') :
    Passes ok offered pool pool' := by
  cases passes with
  | turned before => exact .turned (before.trans turned)
  | reset start before listed fixed settled after => exact .reset start before listed fixed settled (after.trans turned)

theorem Books.listed (books : Books terms pool) (addr : Address) : (pool.view addr).Listed terms.ok := by
  refine ⟨?_, fun tx member => ?_⟩
  · unfold view
    cases found : pool.pending.lookup addr with
    | none => exact List.Pairwise.nil
    | some list => exact ((books.filed addr).pendingSound list found).1.increasing
  · exact ((books.filed addr).sent tx (List.mem_append_left _ (List.mem_append_left _ member))).2.2

theorem resetReorg_passes (identified : Identified ok) (good : chain.Good ok) (books : Books ⟨ok, none, []⟩ pool)
    (oldHead : Option Head) (newHead : Head) :
    ∃ pool', pool.resetReorg moment chain oldHead newHead = some pool' ∧ Books ⟨ok, none, []⟩ pool' ∧
      Passes ok (chain.Offers newHead) pool pool' := by
  obtain ⟨start, pool₁, starts, resets, books₁, turned₁⟩ := reset_books moment identified good books oldHead newHead
  obtain ⟨pool₂, promoted, books₂, turned₂⟩ :=
    promoteExecutables_keeps moment books₁ rfl (moment.ranges.addresses pool₁.queue.keys)
  obtain ⟨pool', settles, books', fixed, views⟩ := settleReset_settles moment chain books₂ rfl newHead
  refine ⟨pool', ?_, books', .reset starts (turned₁.trans turned₂) books₂.listed fixed views (.refl pool')⟩
  simp only [resetReorg, resets, promoted, Option.bind_eq_bind, Option.bind_some]
  exact settles

/-- The state that a reset of a step may find. -/
def Offered (chain : ChainView) : Option (Option Head × Head) → ChainState → Prop
  | some (_, newHead), state => chain.Offers newHead state
  | none, _ => False

/-- `runReorg` up to the limits. -/
theorem resetOrPromote_passes (identified : Identified ok) (good : chain.Good ok) (books : Books ⟨ok, none, []⟩ pool)
    (heads : Option (Option Head × Head)) (dirty : List Address) :
    ∃ pool', pool.resetOrPromote moment chain heads dirty = some pool' ∧ Books ⟨ok, none, []⟩ pool' ∧
      Passes ok (Offered chain heads) pool pool' := by
  cases heads with
  | none =>
    obtain ⟨pool', promoted, books', turned⟩ := promoteExecutables_keeps moment books rfl dirty
    exact ⟨pool', promoted, books', .turned turned⟩
  | some heads =>
    obtain ⟨oldHead, newHead⟩ := heads
    exact resetReorg_passes moment identified good books oldHead newHead

/-- Both kinds of transactions are within their limits, but for those that are always left to an account. -/
structure Limited (pool : Pool) : Prop where
  pending : pool.pendingLength ≤ pool.config.globalSlots ∨ pool.Within pool.config.accountSlots
  queue : pool.queueLength ≤ max pool.config.globalQueue pool.queuedLocally

theorem Levelled.pendingLength {origin : Pool} {level : Nat} (levelled : Levelled terms origin level pool) :
    pool.pendingLength = origin.load level := by
  have sizes (addr : Address) : pool.size addr = (origin.cutTo level addr).length := congrArg List.length (levelled.views addr)
  rw [pendingLength_eq levelled.books origin.pending.keys origin.pending.nodupKeys fun addr some_ => ?_, load]
  · exact congrArg List.sum (List.map_congr_left fun addr _ => sizes addr)
  · rw [sizes, length_cutTo] at some_
    refine mem_keys_of_size ?_
    split at some_ <;> omega

/-- The parts of a reorganisation, with the level of the pending transactions. -/
structure Parts (ok : Transaction → Prop) (chain : ChainView) (heads : Option (Option Head × Head)) (dirty : List Address)
    (pool before : Pool) (level : Nat) (middle after : Pool) : Prop where
  promotes : pool.resetOrPromote moment chain heads dirty = some before
  passes : Passes ok (Offered chain heads) pool before
  truncates : before.truncatePending moment = some middle
  levelled : Levelled ⟨ok, none, []⟩ before level middle
  low : before.config.accountSlots ≤ level
  tight : before.Tight level
  stops : before.load level ≤ before.config.globalSlots ∨ level = before.config.accountSlots
  shortens : middle.truncateQueue moment = some after
  books : Books ⟨ok, none, []⟩ after
  turned : Turned ok middle after
  locals : after.locals = middle.locals
  left : ∀ addr, after.view addr = middle.view addr ∧ after.queued addr = (middle.queued addr).take
    (spare (fun addr => (middle.queued addr).length) (middle.inactive moment) (middle.queueLength - middle.config.globalQueue) addr)
  length : after.queueLength = min middle.queueLength (max middle.config.globalQueue middle.queuedLocally)
  locally : after.queuedLocally = middle.queuedLocally
  ends : pool.runReorg moment chain heads dirty = some { after with changesSinceReorg := 0 }

theorem exists_parts (identified : Identified ok) (good : chain.Good ok) (books : Books ⟨ok, none, []⟩ pool)
    (heads : Option (Option Head × Head)) (dirty : List Address) :
    ∃ before level middle after, Parts moment ok chain heads dirty pool before level middle after := by
  obtain ⟨before, promoted, books₁, passes⟩ := resetOrPromote_passes moment identified good books heads dirty
  obtain ⟨middle, level, truncated, levelled, low, tight, stops⟩ := truncatePending_levels moment books₁
  obtain ⟨after, shortened, books₃, turned₃, locals₃, left₃, length₃, locally⟩ := truncateQueue_spares moment levelled.books rfl
  refine ⟨before, level, middle, after, promoted, passes, truncated, levelled, low, tight, stops, shortened, books₃, turned₃,
    locals₃, left₃, length₃, locally, ?_⟩
  simp only [runReorg, promoted, truncated, shortened, Option.bind_eq_bind, Option.bind_some]
  rfl

section Parts

variable {heads : Option (Option Head × Head)} {dirty : List Address} {before middle after : Pool} {level : Nat} {moment : Moment}

theorem Same.uncounted (pool : Pool) : Same pool { pool with changesSinceReorg := 0 } :=
  ⟨rfl, rfl, rfl, rfl, rfl, rfl, rfl, rfl, rfl, fun _ => rfl⟩

theorem Parts.end_books (parts : Parts moment ok chain heads dirty pool before level middle after) :
    Books ⟨ok, none, []⟩ { after with changesSinceReorg := 0 } :=
  (Same.uncounted after).books parts.books parts.books.catalogue parts.books.sane

theorem Parts.end_passes (parts : Parts moment ok chain heads dirty pool before level middle after) :
    Passes ok (Offered chain heads) pool { after with changesSinceReorg := 0 } :=
  ((parts.passes.turn parts.levelled.turned).turn parts.turned).turn (Same.uncounted after).turned

theorem Parts.limited (parts : Parts moment ok chain heads dirty pool before level middle after) : Limited after := by
  have sizes (addr : Address) : after.size addr = middle.size addr := congrArg (fun view : View => view.pending.length)
    (parts.left addr).1
  have levelled := parts.levelled
  have pending : after.pendingLength = before.load level := by
    rw [← levelled.pendingLength, pendingLength_eq levelled.books middle.pending.keys middle.pending.nodupKeys fun _ =>
      mem_keys_of_size, pendingLength_eq parts.books middle.pending.keys middle.pending.nodupKeys fun addr some_ =>
      mem_keys_of_size (sizes addr ▸ some_)]
    exact congrArg List.sum (List.map_congr_left fun addr _ => sizes addr)
  refine ⟨?_, ?_⟩
  · rw [pending, parts.turned.config, levelled.turned.config]
    refine parts.stops.imp_right fun lowest addr remote => ?_
    have isLocal : before.isLocal addr = false := by
      rw [← remote, Pool.isLocal, Pool.isLocal, parts.locals, levelled.locals]
    rw [sizes, Pool.size, levelled.views, length_cutTo, ← lowest, isLocal]
    exact Nat.min_le_left _ _
  · rw [parts.locally, parts.turned.config, parts.length]
    exact Nat.min_le_right _ _

end Parts

/-! ## Other steps -/

/-- What `Pending` offers of an account. -/
def offer (pool : Pool) (minTip baseFee : Option Nat) (addr : Address) : Option (Address × List Transaction) :=
  let txs := pool.enforceTip minTip baseFee addr (pool.view addr).pending
  if txs.isEmpty then none else some (addr, txs)

variable (ok) in
theorem pendingTxs_offers (books : Books terms pool) (minTip baseFee : Option Nat) (accounts : List Address) :
    (pendingTxs minTip baseFee accounts pool).1 = accounts.filterMap (pool.offer minTip baseFee) ∧
      Books terms (pendingTxs minTip baseFee accounts pool).2 ∧ Turned ok pool (pendingTxs minTip baseFee accounts pool).2 := by
  induction accounts generalizing pool with
  | nil => exact ⟨rfl, books, .refl pool⟩
  | cons first rest ih =>
    rw [pendingTxs, List.filterMap_cons]
    cases found : pool.pending.lookup first with
    | none =>
      have nothing : pool.offer minTip baseFee first = none := by
        have empty : (pool.view first).pending = [] := by simp [view, found, contentsOf]
        unfold offer enforceTip
        cases minTip <;> simp [empty]
      rw [nothing]
      exact ih books
    | some list =>
      obtain ⟨flat, sound, strict, contents⟩ := ((books.filed first).pendingSound list found).1.flatten
      obtain ⟨books₁, beside₁, view₁⟩ := books.touchPending found ⟨sound, strict, contents, .refl _⟩
      obtain ⟨offers, books', turned'⟩ := ih books₁
      have turned₁ : Turned ok pool (pool.setPending first list.flatten.2) := .of_beside beside₁ (by rw [view₁])
      have views (addr : Address) : (pool.setPending first list.flatten.2).view addr = pool.view addr := by
        by_cases same : addr = first
        · rw [same, view₁]
        · exact beside₁.view same
      have same : (pool.setPending first list.flatten.2).offer minTip baseFee = pool.offer minTip baseFee := by
        funext addr
        unfold offer
        rw [views]
        rfl
      dsimp only
      refine ⟨?_, books', turned₁.trans turned'⟩
      rw [offers, same, offer, view_pending found, flat]
      cases (pool.enforceTip minTip baseFee first list.contents).isEmpty <;> rfl

/-- Another subpool reserves and releases its own accounts only. -/
theorem reserver_other {reservations reservations' : Map Address Nat} {subpool self : Nat} {reserve : Bool}
    (apart : subpool ≠ self) (done : reserver reservations subpool addr reserve = .ok reservations') (other : Address) :
    reservations'.lookup other = some self ↔ reservations.lookup other = some self := by
  unfold reserver at done
  cases owned : reservations.lookup addr with
  | none =>
    rw [owned] at done
    cases reserve with
    | false => cases done
    | true =>
      cases done
      rw [lookup_insert_eq]
      split
      · rename_i same
        subst same
        simp [owned, apart]
      · rfl
  | some owner =>
    rw [owned] at done
    by_cases own : owner = subpool
    · subst own
      cases reserve with
      | true =>
        simp only [if_true] at done
        cases done
        rfl
      | false =>
        simp only [if_true, Bool.false_eq_true, if_false] at done
        cases done
        rw [lookup_erase_eq]
        split
        · rename_i same
          subst same
          simp [owned, apart]
        · rfl
    · cases reserve <;> simp [own] at done

theorem Books.reservations (books : Books terms pool) {reservations : Map Address Nat}
    (same : ∀ addr, reservations.lookup addr = some pool.self ↔ pool.reservations.lookup addr = some pool.self) :
    Books terms { pool with reservations } :=
  ⟨books.filed, fun addr => ⟨⟨(books.tidy addr).pending, (books.tidy addr).queue⟩, (same addr).trans (books.tidy addr).reserved⟩,
    books.catalogue, books.sane, books.fallback⟩

/-! ## Every step -/

/-- The heads of the reset of a step. -/
def heads : Call → Option (Option Head × Head)
  | .runReorg heads _ => heads
  | _ => none

/-- What a step may see and be called with: transactions of the kind that the chain has, and subpools other than this one. -/
structure Allowed (ok : Transaction → Prop) (pool : Pool) (event : Event) : Prop where
  chain : event.chain.Good ok
  txs : ∀ txs isLocal, event.call = .add txs isLocal → ∀ tx ∈ txs, ok tx
  subpool : ∀ subpool addr reserve, event.call = .reserver subpool addr reserve → subpool ≠ pool.self

/-- The balances are such that no sum of costs overflows. -/
def Affordable (pool : Pool) : Prop := ∀ addr, pool.state.balance addr < costBound

theorem step_passes (identified : Identified ok) (books : Books ⟨ok, none, []⟩ pool) (affordable : pool.Affordable) {event : Event}
    (allowed : Allowed ok pool event) :
    ∃ pool', pool.step event = some pool' ∧ Books ⟨ok, none, []⟩ pool' ∧
      Passes ok (Offered event.chain (heads event.call)) pool pool' := by
  obtain ⟨moment, chain, call⟩ := event
  obtain ⟨good, txsGood, apart⟩ := allowed
  cases call with
  | add txs isLocal =>
    obtain ⟨pool', added, books', turned⟩ :=
      addTxsLocked_keeps moment identified books affordable (txsGood txs isLocal rfl) chain isLocal
    exact ⟨pool', added, books', .turned turned⟩
  | runReorg heads dirty =>
    obtain ⟨before, level, middle, after, parts⟩ := exists_parts moment identified good books heads dirty
    exact ⟨_, parts.ends, parts.end_books, parts.end_passes⟩
  | setGasTip tip =>
    obtain ⟨pool', set, books', turned⟩ := setGasTip_keeps moment books rfl tip
    exact ⟨pool', set, books', .turned turned⟩
  | setMinFee minFee =>
    have same : Same pool { pool with minimumFee := some minFee } := ⟨rfl, rfl, rfl, rfl, rfl, rfl, rfl, rfl, rfl, fun _ => rfl⟩
    exact ⟨_, rfl, same.books books books.catalogue books.sane, .turned same.turned⟩
  | evict =>
    obtain ⟨pool', evicted, books', turned⟩ := evict_keeps moment books rfl
    exact ⟨pool', evicted, books', .turned turned⟩
  | updateBaseFee =>
    obtain ⟨books', same⟩ := updateBaseFeeAt_books moment chain books pool.head
    exact ⟨_, rfl, books', .turned same.turned⟩
  | pending minTip baseFee =>
    obtain ⟨-, books', turned⟩ := pendingTxs_offers ok books minTip baseFee (moment.ranges.addresses pool.pending.keys)
    exact ⟨_, rfl, books', .turned turned⟩
  | reserver subpool addr reserve =>
    have stay : Turned ok pool pool := .refl pool
    cases done : TxPool.reserver pool.reservations subpool addr reserve with
    | error error => exact ⟨pool, by simp [step, done], books, .turned stay⟩
    | ok reservations =>
      refine ⟨{ pool with reservations }, by simp [step, done],
        books.reservations (reserver_other (apart subpool addr reserve rfl) done), .turned ⟨rfl, rfl, rfl, rfl, fun _ => .refl⟩⟩

/-! ## What a step keeps -/

/-- The state of the chain after a step is the old one or one that was offered. -/
theorem Passes.state (passes : Passes ok offered pool pool') : pool'.state = pool.state ∨ offered pool'.state := by
  cases passes with
  | turned turned => exact .inl turned.state
  | reset start before _ fixed _ after =>
    have same := after.state.trans (fixed.state.trans before.state)
    cases start with
    | old => exact .inl same
    | new head state offers =>
      rw [same]
      exact .inr offers

theorem Passes.config (passes : Passes ok offered pool pool') : pool'.config = pool.config := by
  cases passes with
  | turned turned => exact turned.config
  | reset start before _ fixed _ after =>
    have same := after.config.trans (fixed.config.trans before.config)
    cases start <;> exact same

theorem Passes.self (passes : Passes ok offered pool pool') : pool'.self = pool.self := by
  cases passes with
  | turned turned => exact turned.self
  | reset start before _ fixed _ after =>
    have same := after.self.trans (fixed.self.trans before.self)
    cases start <;> exact same

theorem Start.gapless {start : Pool} (starts : Start offered pool start) (gapless : (pool.view addr).Gapless (pool.state.nonce addr))
    (onwards : ∀ state, offered state → pool.state.nonce addr ≤ state.nonce addr) :
    (start.view addr).Gapless (start.state.nonce addr) := by
  cases starts with
  | old => exact gapless
  | new head state offers =>
    have later := onwards state offers
    refine ⟨gapless.increasing, fun tx member number low high => gapless.between tx member number (later.trans low) high,
      fun number low high => ?_⟩
    change state.nonce addr ≤ number at low
    change number < state.nonce addr at high
    omega

theorem front_resettled (listed : (pool.view addr).Listed ok) :
    (pool.resettled addr).Front (pool.state.nonce addr) (pool.state.balance addr) :=
  View.front_settled listed.increasing fun tx fits => (TxList.within_of_fits (by simpa [Pool.fits] using fits)).1

theorem gapless_resettled (gapless : (pool.view addr).Gapless (pool.state.nonce addr)) :
    (pool.resettled addr).Gapless (pool.state.nonce addr) := View.gapless_settled gapless

theorem exact_resettled (listed : (pool.view addr).Listed ok) (below : ∀ tx, ok tx → tx.nonce + 1 < 2 ^ 64) :
    (pool.resettled addr).Exact (pool.state.nonce addr) :=
  View.exact_settled listed.increasing fun tx member => below tx (listed.good tx member)

/-- Whatever was pending before a reset, it starts at the nonce of the account after it. -/
theorem Passes.front (passes : Passes ok offered pool pool') (addr : Address)
    (front : (pool.view addr).Front (pool.state.nonce addr) (pool.state.balance addr)) :
    (pool'.view addr).Front (pool'.state.nonce addr) (pool'.state.balance addr) := by
  cases passes with
  | turned turned =>
    rw [turned.state]
    exact front.turns (turned.turns addr)
  | reset _ _ listed fixed views after =>
    have settles := front_resettled (listed addr)
    rw [← views, ← fixed.state] at settles
    rw [after.state]
    exact settles.turns (after.turns addr)

/-- A reset that does not lower the nonce of the account leaves no gap. -/
theorem Passes.gapless (passes : Passes ok offered pool pool') (addr : Address)
    (gapless : (pool.view addr).Gapless (pool.state.nonce addr))
    (onwards : ∀ state, offered state → pool.state.nonce addr ≤ state.nonce addr) :
    (pool'.view addr).Gapless (pool'.state.nonce addr) := by
  cases passes with
  | turned turned =>
    rw [turned.state]
    exact gapless.turns (turned.turns addr)
  | reset starts before _ fixed views after =>
    have first := (starts.gapless gapless onwards).turns (before.turns addr)
    rw [← before.state] at first
    have settles := gapless_resettled first
    rw [← views, ← fixed.state] at settles
    rw [after.state]
    exact settles.turns (after.turns addr)

/-- The next nonce of an account follows its pending ones, unless one is the last of 64 bits. -/
theorem Passes.exact (passes : Passes ok offered pool pool') (addr : Address)
    (front : (pool.view addr).Front (pool.state.nonce addr) (pool.state.balance addr))
    (gapless : (pool.view addr).Gapless (pool.state.nonce addr)) (exact_ : (pool.view addr).Exact (pool.state.nonce addr))
    (onwards : ∀ state, offered state → pool.state.nonce addr ≤ state.nonce addr) (below : ∀ tx, ok tx → tx.nonce + 1 < 2 ^ 64) :
    (pool'.view addr).Exact (pool'.state.nonce addr) := by
  cases passes with
  | turned turned =>
    rw [turned.state]
    exact exact_.turns gapless front below (turned.turns addr)
  | reset starts before listed fixed views after =>
    have first := (starts.gapless gapless onwards).turns (before.turns addr)
    rw [← before.state] at first
    have settles := exact_resettled (listed addr) below
    have settles' := gapless_resettled first
    have settles'' := front_resettled (listed addr)
    rw [← views, ← fixed.state] at settles settles' settles''
    rw [after.state]
    exact settles.turns settles' settles'' below (after.turns addr)

end Pool

end Snowside.TxPool
