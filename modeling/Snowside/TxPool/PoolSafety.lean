import Snowside.TxPool.ListCalls
import Snowside.TxPool.PoolRuns

/-! What holds in every run of the pool: no step panics and the books are kept, the pending transactions of an
account can be executed from its nonce on, and reorganisations keep the pool within its limits.
-/

set_option autoImplicit false

namespace Snowside.TxPool

open Evm (Address)
open Maps (Map)
open TxList (costBound)
open Sorted (Increasing)
open Runs (System Reach)

/-- The pool from its start on, with no account reserved for it. -/
def poolSystem : System Pool Event where
  initial pool := ∃ config locals gasTip head state reservations self,
    pool = Pool.init config locals gasTip head state reservations self ∧
      (∀ addr, reservations.lookup addr ≠ some self) ∧ ∀ addr, state.balance addr < costBound
  step pool event after := pool.step event = some after

namespace Pool

/-- No reset lowers the nonce of the account. -/
def Onwards (addr : Address) (pool : Pool) (event : Event) : Prop :=
  ∀ state, Offered event.chain (heads event.call) state → pool.state.nonce addr ≤ state.nonce addr

variable {ok : Transaction → Prop} {condition : Pool → Event → Prop} {pool : Pool} {addr : Address}

theorem init_books (config : Config) (locals : List Address) (gasTip : Nat) (head : Head) (state : ChainState)
    (reservations : Map Address Nat) (self : Nat) (free : ∀ addr, reservations.lookup addr ≠ some self) :
    Books ⟨ok, none, []⟩ (init config locals gasTip head state reservations self) where
  filed addr := ⟨fun _ found => (by cases found), fun _ found => (by cases found), List.nodup_nil, fun _ member => (by cases member)⟩
  tidy addr := by
    refine ⟨⟨fun _ found => (by cases found), fun _ found => (by cases found)⟩, fun reserved => absurd reserved (free addr), ?_⟩
    rintro (lists | invited)
    · cases lists
    · cases invited
  catalogue := Catalogue.newLookup.congr fun tx => ⟨False.elim, fun held => by rcases held with held | held <;> cases held⟩
  sane := .empty _
  fallback := rfl

/-- What holds between the steps. -/
structure Safe (ok : Transaction → Prop) (pool : Pool) : Prop where
  books : Books ⟨ok, none, []⟩ pool
  affordable : pool.Affordable
  front : ∀ addr, (pool.view addr).Front (pool.state.nonce addr) (pool.state.balance addr)

theorem safe_of_reach (identified : Identified ok) (allowed : ∀ pool event, condition pool event → Allowed ok pool event)
    (reach : Reach poolSystem condition pool) : Safe ok pool := by
  refine reach.invariant (Safe ok) ?_ ?_
  · rintro _ ⟨config, locals, gasTip, head, state, reservations, self, rfl, free, affordable⟩
    refine ⟨init_books config locals gasTip head state reservations self free, affordable, fun addr => ?_⟩
    exact ⟨List.Pairwise.nil, fun _ member => (by cases member), fun nonempty => absurd rfl nonempty, fun _ => le_rfl,
      fun _ member => (by cases member)⟩
  · intro pool event after safe condition stepped
    have fine := allowed pool event condition
    obtain ⟨pool', ran, books', passes⟩ := step_passes identified safe.books safe.affordable fine
    obtain rfl := Option.some.inj (ran.symm.trans stepped)
    refine ⟨books', ?_, fun addr => passes.front addr (safe.front addr)⟩
    unfold Affordable
    rcases passes.state with same | offers
    · rw [same]
      exact safe.affordable
    · cases at_ : heads event.call with
      | none => simp [at_, Offered] at offers
      | some heads =>
        rw [at_] at offers
        exact fine.chain.states _ _ offers

/-! ## A run of a small pool -/

def sampleConfig : Config where
  priceBump := 10
  accountSlots := 1
  globalSlots := 2
  accountQueue := 4
  globalQueue := 4
  lifetime := 10

def sampleHead : Head where
  hash := 0
  parentHash := 0
  number := 0
  time := 0
  gasLimit := 8000000
  root := 0

def sampleState : ChainState where
  nonce _ := 4
  balance _ := 2 ^ 100
  isEnabled _ := true

def sampleChain : ChainView where
  currentBlock := sampleHead
  getBlock _ _ := none
  stateAt _ := some sampleState
  minBaseFeeAt _ := none
  estimateNextBaseFee _ := none
  isLondon _ := true
  txAllowListEnabled _ := false
  feeManagerEnabled _ := false

def samplePool : Pool := init sampleConfig [] 0 sampleHead sampleState ∅ 0

def sampleMoment : Moment := { ranges := plainRanges, now := fun _ => 0 }

def sampleTxs : List Transaction := [sampleTx 1 4 7, sampleTx 2 5 8, sampleTx 3 6 8]

def sampleAdd : Event := ⟨sampleMoment, sampleChain, .add sampleTxs false⟩

def sampleReorg : Event := ⟨sampleMoment, sampleChain, .runReorg none [1]⟩

example : (samplePool.step sampleAdd).isSome := by decide

theorem sample_identified : Identified (· ∈ sampleTxs) := by
  have all : ∀ first ∈ sampleTxs, ∀ second ∈ sampleTxs, first.hash = second.hash → first = second := by decide
  exact fun first second one two => all first one second two

theorem sample_affordable (addr : Address) : sampleState.balance addr < costBound := by
  change 2 ^ 100 < 2 ^ 192
  decide

theorem sample_allowed (pool : Pool) {call : Call} (txs : ∀ txs isLocal, call = .add txs isLocal → txs = sampleTxs)
    (subpool : ∀ subpool addr reserve, call ≠ .reserver subpool addr reserve) :
    Allowed (· ∈ sampleTxs) pool ⟨sampleMoment, sampleChain, call⟩ where
  chain := ⟨fun _ _ _ found => (by cases found), fun root state found addr => by cases found; exact sample_affordable addr⟩
  txs others isLocal same tx member := txs others isLocal same ▸ member
  subpool other addr reserve same := absurd same (subpool other addr reserve)

theorem sampleReorg_allowed (pool : Pool) : Allowed (· ∈ sampleTxs) pool sampleReorg :=
  sample_allowed pool (fun _ _ same => by cases same) fun _ _ _ same => by cases same

/-- Transactions are added. -/
theorem sample_adds : ∃ between, samplePool.step sampleAdd = some between ∧
    Reach poolSystem (fun pool event => Allowed (· ∈ sampleTxs) pool event ∧ Onwards 1 pool event) between := by
  have initial : poolSystem.initial samplePool :=
    ⟨sampleConfig, [], 0, sampleHead, sampleState, ∅, 0, rfl, fun _ => by simp, sample_affordable⟩
  have safe := safe_of_reach sample_identified (fun _ _ (allowed : Allowed (· ∈ sampleTxs) _ _) => allowed) (.start initial)
  have adds : Allowed (· ∈ sampleTxs) samplePool sampleAdd :=
    sample_allowed _ (fun _ _ same => (Call.add.inj same).1.symm) fun _ _ _ same => by cases same
  obtain ⟨between, added, -⟩ := step_passes sample_identified safe.books safe.affordable adds
  exact ⟨between, added, .next (.start initial) ⟨adds, fun _ offers => offers.elim⟩ added⟩

/-- They are promoted, without a reset. -/
theorem sample_run : ∃ between after, samplePool.step sampleAdd = some between ∧ between.step sampleReorg = some after ∧
    Reach poolSystem (fun pool event => Allowed (· ∈ sampleTxs) pool event ∧ Onwards 1 pool event) after := by
  obtain ⟨between, added, reach⟩ := sample_adds
  have safe := safe_of_reach sample_identified (fun _ _ => And.left) reach
  have promotes := sampleReorg_allowed between
  obtain ⟨after, promoted, -⟩ := step_passes sample_identified safe.books safe.affordable promotes
  exact ⟨between, after, added, promoted, .next reach ⟨promotes, fun _ offers => offers.elim⟩ promoted⟩

/-! ## In every run -/

/-- In every run each step of the pool ends, and the books are kept. -/
theorem pool_keeps_books (identified : Identified ok) (reach : Reach poolSystem (Allowed ok) pool) :
    Books ⟨ok, none, []⟩ pool ∧ ∀ event, Allowed ok pool event → ∃ after, pool.step event = some after := by
  have safe := safe_of_reach identified (fun _ _ => id) reach
  refine ⟨safe.books, fun event allowed => ?_⟩
  obtain ⟨after, ran, -⟩ := step_passes identified safe.books safe.affordable allowed
  exact ⟨after, ran⟩

theorem pool_keeps_books_sample : ∃ between after, samplePool.step sampleAdd = some between ∧
    between.step sampleReorg = some after ∧ Books ⟨(· ∈ sampleTxs), none, []⟩ after := by
  obtain ⟨between, after, added, promoted, reach⟩ := sample_run
  exact ⟨between, after, added, promoted, (pool_keeps_books sample_identified (reach.mono fun _ _ => And.left)).1⟩

/-- In every run the pending transactions of an account start at its nonce, and it can pay for each of them. -/
theorem pending_starts_at_nonce (identified : Identified ok) (reach : Reach poolSystem (Allowed ok) pool) (addr : Address) :
    Increasing Transaction.nonce (pool.view addr).pending ∧
      (∀ first ∈ (pool.view addr).pending.head?, first.nonce = pool.state.nonce addr) ∧
      ∀ tx ∈ (pool.view addr).pending, tx.sender = some addr ∧ tx.cost ≤ pool.state.balance addr := by
  have safe := safe_of_reach identified (fun _ _ => id) reach
  have front := safe.front addr
  refine ⟨front.increasing, fun first starts => ?_, fun tx member => ?_⟩
  · obtain ⟨rest, split⟩ := List.head?_eq_some_iff.mp starts
    obtain ⟨tx, member, same⟩ := front.starts (by rw [split]; exact List.cons_ne_nil _ _)
    have low := front.reached first (by rw [split]; exact List.mem_cons_self)
    rw [split] at member
    rcases List.mem_cons.mp member with rfl | later
    · exact same
    · have increasing := front.increasing
      rw [split] at increasing
      have := (List.pairwise_cons.mp increasing).1 tx later
      omega
  · exact ⟨((safe.books.filed addr).sent tx (List.mem_append_left _ (List.mem_append_left _ member))).1, front.paid tx member⟩

theorem pending_starts_at_nonce_sample : ∃ between after, samplePool.step sampleAdd = some between ∧
    between.step sampleReorg = some after ∧ Increasing Transaction.nonce (after.view 1).pending := by
  obtain ⟨between, after, added, promoted, reach⟩ := sample_run
  exact ⟨between, after, added, promoted, (pending_starts_at_nonce sample_identified (reach.mono fun _ _ => And.left) 1).1⟩

theorem gapless_of_reach (identified : Identified ok)
    (reach : Reach poolSystem (fun pool event => Allowed ok pool event ∧ Onwards addr pool event) pool) :
    (pool.view addr).Gapless (pool.state.nonce addr) ∧
      ((∀ tx, ok tx → tx.nonce + 1 < 2 ^ 64) → (pool.view addr).Exact (pool.state.nonce addr)) := by
  induction reach with
  | start initial =>
    obtain ⟨config, locals, gasTip, head, state, reservations, self, rfl, -, -⟩ := initial
    refine ⟨⟨List.Pairwise.nil, fun _ member => (by cases member), fun number low high => ?_⟩,
      fun _ => ⟨fun _ member => (by cases member), le_rfl⟩⟩
    exact absurd (low.trans_lt high) (Nat.lt_irrefl _)
  | next before condition stepped ih =>
    have safe := safe_of_reach identified (fun _ _ => And.left) before
    obtain ⟨pool', ran, -, passes⟩ := step_passes identified safe.books safe.affordable condition.1
    obtain rfl := Option.some.inj (ran.symm.trans stepped)
    exact ⟨passes.gapless addr ih.1 condition.2,
      fun below => passes.exact addr (safe.front addr) ih.1 (ih.2 below) condition.2 below⟩

/-- As long as no reset lowers the nonce of an account, its pending transactions have all nonces from that on,
and the pool answers with the nonce after them. -/
theorem pending_consecutive (identified : Identified ok)
    (reach : Reach poolSystem (fun pool event => Allowed ok pool event ∧ Onwards addr pool event) pool) :
    (pool.view addr).pending.map Transaction.nonce = List.range' (pool.state.nonce addr) (pool.view addr).pending.length ∧
      ((∀ tx, ok tx → tx.nonce + 1 < 2 ^ 64) →
        (pool.pendingNonces.get addr).1 = pool.state.nonce addr + (pool.view addr).pending.length) := by
  have front := (safe_of_reach identified (fun _ _ => And.left) reach).front addr
  obtain ⟨gapless, exact_⟩ := gapless_of_reach identified reach
  refine ⟨View.consecutive front gapless, fun below => ?_⟩
  rw [Noncer.get_eq]
  exact View.next_eq front gapless (exact_ below)

theorem pending_consecutive_sample : ∃ between after, samplePool.step sampleAdd = some between ∧
    between.step sampleReorg = some after ∧ (after.pendingNonces.get 1).1 = after.state.nonce 1 + (after.view 1).pending.length := by
  obtain ⟨between, after, added, promoted, reach⟩ := sample_run
  have below : ∀ tx ∈ sampleTxs, tx.nonce + 1 < 2 ^ 64 := by decide
  exact ⟨between, after, added, promoted, (pending_consecutive sample_identified reach).2 below⟩

/-- What `Pending` gives out of such an account is executable from its nonce on. -/
theorem pending_offers_executable (identified : Identified ok)
    (reach : Reach poolSystem (fun pool event => Allowed ok pool event ∧ Onwards addr pool event) pool)
    (minTip baseFee : Option Nat) (accounts : List Address) {txs : List Transaction}
    (offered : (addr, txs) ∈ (pendingTxs minTip baseFee accounts pool).1) :
    txs ≠ [] ∧ txs <+: (pool.view addr).pending ∧ txs.map Transaction.nonce = List.range' (pool.state.nonce addr) txs.length ∧
      ∀ tx ∈ txs, tx.sender = some addr ∧ tx.cost ≤ pool.state.balance addr := by
  have safe := safe_of_reach identified (fun _ _ => And.left) reach
  obtain ⟨consecutive, -⟩ := pending_consecutive identified reach
  rw [(pendingTxs_offers ok safe.books minTip baseFee accounts).1, List.mem_filterMap] at offered
  obtain ⟨other, -, offers⟩ := offered
  unfold offer at offers
  dsimp only at offers
  split at offers
  · cases offers
  · rename_i nonempty
    obtain ⟨rfl, rfl⟩ := Prod.mk.inj (Option.some.inj offers)
    have part : pool.enforceTip minTip baseFee other (pool.view other).pending <+: (pool.view other).pending := by
      unfold enforceTip
      split
      · exact List.prefix_refl _
      · split
        · exact List.prefix_refl _
        · exact List.takeWhile_prefix _
    refine ⟨fun empty => nonempty (by rw [empty]; rfl), part, ?_, fun tx member => ?_⟩
    · generalize pool.enforceTip minTip baseFee other (pool.view other).pending = txs at part
      have short := part.length_le
      calc txs.map Transaction.nonce
        _ = ((pool.view other).pending.map Transaction.nonce).take txs.length := by
          rw [← List.map_take, ← List.prefix_iff_eq_take.mp part]
        _ = List.range' (pool.state.nonce other) txs.length := by
          rw [consecutive, List.take_range'_of_length_ge short]
    · have inside := part.subset member
      exact ⟨((safe.books.filed other).sent tx (List.mem_append_left _ (List.mem_append_left _ inside))).1,
        (safe.front other).paid tx inside⟩

theorem pending_offers_executable_sample : ∃ between after, samplePool.step sampleAdd = some between ∧
    between.step sampleReorg = some after ∧ ∀ txs, (1, txs) ∈ (pendingTxs (some 0) none [1] after).1 → txs ≠ [] := by
  obtain ⟨between, after, added, promoted, reach⟩ := sample_run
  exact ⟨between, after, added, promoted,
    fun txs offered => (pending_offers_executable sample_identified reach (some 0) none [1] offered).1⟩

/-! ## The limits in every run -/

/-- After every reorganisation there are few enough pending and queued transactions, or of each account no more than
it may always have. -/
theorem reorg_keeps_limits (identified : Identified ok) (reach : Reach poolSystem (Allowed ok) pool) {event : Event}
    {heads : Option (Option Head × Head)} {dirty : List Address} (reorg : event.call = .runReorg heads dirty)
    (allowed : Allowed ok pool event) :
    ∃ after, pool.step event = some after ∧
      (after.pendingLength ≤ pool.config.globalSlots ∨
        ∀ addr, after.isLocal addr = false → (after.view addr).pending.length ≤ pool.config.accountSlots) ∧
      after.queueLength ≤ max pool.config.globalQueue after.queuedLocally := by
  have safe := safe_of_reach identified (fun _ _ => id) reach
  obtain ⟨before, level, middle, after, parts⟩ := exists_parts event.moment identified allowed.chain safe.books heads dirty
  have config : after.config = pool.config := parts.end_passes.config
  refine ⟨{ after with changesSinceReorg := 0 }, ?_, ?_, ?_⟩
  · rw [step, reorg]
    exact parts.ends
  · rw [← config]
    exact parts.limited.pending
  · rw [← config]
    exact parts.limited.queue

theorem reorg_keeps_limits_sample : ∃ between after, samplePool.step sampleAdd = some between ∧
    between.step sampleReorg = some after ∧ after.queueLength ≤ max between.config.globalQueue after.queuedLocally := by
  obtain ⟨between, added, reach⟩ := sample_adds
  obtain ⟨after, ran, -, queue⟩ :=
    reorg_keeps_limits sample_identified (reach.mono fun _ _ => And.left) rfl (sampleReorg_allowed between)
  exact ⟨between, after, added, ran, queue⟩

/-- A reorganisation brings the pending transactions of remote accounts down to one level, the highest with few enough
transactions in all, though not below the slots of an account. -/
theorem reorg_levels (identified : Identified ok) (reach : Reach poolSystem (Allowed ok) pool) {event : Event}
    {heads : Option (Option Head × Head)} {dirty : List Address} (reorg : event.call = .runReorg heads dirty)
    (allowed : Allowed ok pool event) :
    ∃ before after level, pool.resetOrPromote event.moment event.chain heads dirty = some before ∧ pool.step event = some after ∧
      pool.config.accountSlots ≤ level ∧ (∀ addr, (after.view addr).pending =
        if before.isLocal addr then (before.view addr).pending else (before.view addr).pending.take level) ∧
      (before.load level ≤ pool.config.globalSlots ∨ level = pool.config.accountSlots) ∧
      ((∀ addr, before.isLocal addr = false → (before.view addr).pending.length ≤ level) ∨
        pool.config.globalSlots < before.load (level + 1)) := by
  have safe := safe_of_reach identified (fun _ _ => id) reach
  obtain ⟨before, level, middle, after, parts⟩ := exists_parts event.moment identified allowed.chain safe.books heads dirty
  have config : before.config = pool.config := parts.passes.config
  refine ⟨before, { after with changesSinceReorg := 0 }, level, parts.promotes, ?_, config ▸ parts.low, fun addr => ?_,
    config ▸ parts.stops, config ▸ parts.tight⟩
  · rw [step, reorg]
    exact parts.ends
  · exact (congrArg View.pending (parts.left addr).1).trans (parts.levelled.views addr)

theorem reorg_levels_sample : ∃ between after level, samplePool.step sampleAdd = some between ∧
    between.step sampleReorg = some after ∧ between.config.accountSlots ≤ level := by
  obtain ⟨between, added, reach⟩ := sample_adds
  obtain ⟨before, after, level, -, ran, low, -⟩ :=
    reorg_levels sample_identified (reach.mono fun _ _ => And.left) rfl (sampleReorg_allowed between)
  exact ⟨between, after, level, added, ran, low⟩

/-- A reorganisation shortens a queue that is too long by the transactions of remote accounts: those that were inactive
for longest lose theirs first, each from the highest nonce down. -/
theorem reorg_spares (identified : Identified ok) (reach : Reach poolSystem (Allowed ok) pool) {event : Event}
    {heads : Option (Option Head × Head)} {dirty : List Address} (reorg : event.call = .runReorg heads dirty)
    (allowed : Allowed ok pool event) :
    ∃ before middle after accounts, pool.resetOrPromote event.moment event.chain heads dirty = some before ∧
      before.truncatePending event.moment = some middle ∧ pool.step event = some after ∧ accounts.Nodup ∧
      accounts.Pairwise (fun first second => middle.beat first ≤ middle.beat second) ∧
      (∀ addr, addr ∈ accounts ↔ middle.queued addr ≠ [] ∧ middle.isLocal addr = false) ∧
      (∀ addr, after.queued addr = (middle.queued addr).take
        (spare (fun addr => (middle.queued addr).length) accounts (middle.queueLength - pool.config.globalQueue) addr)) ∧
      after.queueLength = min middle.queueLength (max pool.config.globalQueue middle.queuedLocally) := by
  have safe := safe_of_reach identified (fun _ _ => id) reach
  obtain ⟨before, level, middle, after, parts⟩ := exists_parts event.moment identified allowed.chain safe.books heads dirty
  have config : middle.config = pool.config := parts.levelled.turned.config.trans parts.passes.config
  obtain ⟨once, sorted, split⟩ := inactive_spec event.moment middle
  refine ⟨before, middle, { after with changesSinceReorg := 0 }, middle.inactive event.moment, parts.promotes, parts.truncates, ?_,
    once, sorted, fun addr => ?_, fun addr => config ▸ (parts.left addr).2, config ▸ parts.length⟩
  · rw [step, reorg]
    exact parts.ends
  · rw [← mem_queueKeys parts.levelled.books, mem_inactive]

theorem reorg_spares_sample : ∃ between, ∃ middle after : Pool, samplePool.step sampleAdd = some between ∧
    between.step sampleReorg = some after ∧
    after.queueLength = min middle.queueLength (max between.config.globalQueue middle.queuedLocally) := by
  obtain ⟨between, added, reach⟩ := sample_adds
  obtain ⟨before, middle, after, accounts, -, -, ran, -, -, -, -, length⟩ :=
    reorg_spares sample_identified (reach.mono fun _ _ => And.left) rfl (sampleReorg_allowed between)
  exact ⟨between, middle, after, added, ran, length⟩

end Pool

end Snowside.TxPool
