import Snowside.TxPool.Inactive

/-! A reset to a new head: transactions of the old branch come back, and the pending transactions of every
account are settled against the new state.
-/

set_option autoImplicit false

namespace Snowside.TxPool

open Evm (Address)
open Maps (Map lookup_insert_eq lookup_erase_eq)
open Precompile (Hash)
open TxList (costBound Leaves)

/-- What the pool relies on of the chain: its blocks have such transactions, and no balance is too high. -/
structure ChainView.Good (ok : Transaction → Prop) (chain : ChainView) : Prop where
  blocks : ∀ hash number block, chain.getBlock hash number = some block → ∀ tx ∈ block.transactions, ok tx
  states : ∀ root state, chain.stateAt root = some state → ∀ addr, state.balance addr < costBound

/-- The state of the chain at a head. -/
def ChainView.Offers (chain : ChainView) (head : Head) (state : ChainState) : Prop := chain.stateAt head.root = some state

namespace Pool

variable {terms : Terms} {ok : Transaction → Prop} {addr : Address} {pool pool' : Pool} {tx : Transaction}
  {list list' : TxList} (moment : Moment)

/-! ## A new head -/

/-- The pool at a new head, before anything else is done. -/
def renew (pool : Pool) (head : Head) (state : ChainState) : Pool :=
  { pool with head, state, pendingNonces := newNoncer state.nonce }

theorem Books.renew (books : Books terms pool) (head : Head) (state : ChainState) : Books terms (pool.renew head state) :=
  ⟨books.filed, fun addr => ⟨⟨(books.tidy addr).pending, (books.tidy addr).queue⟩, (books.tidy addr).reserved⟩, books.catalogue,
    books.sane, rfl⟩

variable {chain : ChainView}

theorem descend_good (good : chain.Good ok) {number depth : Nat} {block last : Block} {txs left : List Transaction}
    (txsGood : ∀ tx ∈ txs, ok tx) (blockGood : ∀ tx ∈ block.transactions, ok tx)
    (descended : descend chain number depth block txs = some (last, left)) :
    (∀ tx ∈ last.transactions, ok tx) ∧ ∀ tx ∈ left, ok tx := by
  induction depth generalizing block txs with
  | zero =>
    rw [descend] at descended
    split at descended
    · cases descended
    · cases descended
      exact ⟨blockGood, txsGood⟩
  | succ depth ih =>
    rw [descend] at descended
    split at descended
    · obtain ⟨parent, found, descended⟩ := Option.bind_eq_some_iff.mp descended
      refine ih (fun tx member => ?_) (good.blocks _ _ parent found) descended
      exact (List.mem_append.mp member).elim (txsGood tx) (blockGood tx)
    · cases descended
      exact ⟨blockGood, txsGood⟩

theorem meet_good (good : chain.Good ok) {depth : Nat} {rem add : Block} {discarded included discarded' included' : List Transaction}
    (discardedGood : ∀ tx ∈ discarded, ok tx) (remGood : ∀ tx ∈ rem.transactions, ok tx)
    (met : meet chain depth rem add discarded included = some (discarded', included')) : ∀ tx ∈ discarded', ok tx := by
  induction depth generalizing rem add discarded included with
  | zero => cases met
  | succ depth ih =>
    rw [meet] at met
    split at met
    · cases met
      exact discardedGood
    · obtain ⟨rem', found, met⟩ := Option.bind_eq_some_iff.mp met
      obtain ⟨add', -, met⟩ := Option.bind_eq_some_iff.mp met
      refine ih (fun tx member => ?_) (good.blocks _ _ rem' found) met
      exact (List.mem_append.mp member).elim (discardedGood tx) (remGood tx)

theorem reinjected_good (good : chain.Good ok) {oldHead : Option Head} {newHead : Head} {txs : List Transaction}
    (found : reinjected chain oldHead newHead = some txs) : ∀ tx ∈ txs, ok tx := by
  unfold reinjected at found
  split at found
  · cases found
    exact fun tx member => absurd member List.not_mem_nil
  · split at found
    · cases found
      exact fun tx member => absurd member List.not_mem_nil
    · split at found
      · split at found
        · cases found
        · cases found
          exact fun tx member => absurd member List.not_mem_nil
      · rename_i rem remFound
        obtain ⟨add, -, found⟩ := Option.bind_eq_some_iff.mp found
        obtain ⟨⟨last, discarded⟩, descended, found⟩ := Option.bind_eq_some_iff.mp found
        obtain ⟨⟨other, included⟩, -, found⟩ := Option.bind_eq_some_iff.mp found
        obtain ⟨⟨discarded', included'⟩, met, found⟩ := Option.bind_eq_some_iff.mp found
        cases found
        obtain ⟨lastGood, leftGood⟩ := descend_good good (fun tx member => absurd member List.not_mem_nil)
          (good.blocks _ _ rem remFound) descended
        intro tx member
        exact meet_good good leftGood lastGood met tx (List.mem_of_mem_filter (List.mem_of_mem_filter member))

/-- A reset starts from the old state of the chain, or from a new one that is offered. -/
inductive Start (offered : ChainState → Prop) (pool : Pool) : Pool → Prop where
  | old : Start offered pool pool
  | new (head : Head) (state : ChainState) : offered state → Start offered pool (pool.renew head state)

theorem reset_books (identified : Identified ok) (good : chain.Good ok) (books : Books ⟨ok, none, []⟩ pool) (oldHead : Option Head)
    (newHead : Head) :
    ∃ start pool', Start (chain.Offers newHead) pool start ∧ pool.reset moment chain oldHead newHead = some pool' ∧
      Books ⟨ok, none, []⟩ pool' ∧
      Turned ok start pool' := by
  unfold reset
  cases branch : reinjected chain oldHead newHead with
  | none => exact ⟨pool, pool, .old, rfl, books, .refl pool⟩
  | some reinject =>
    cases found : chain.stateAt newHead.root with
    | none => exact ⟨pool, pool, .old, rfl, books, .refl pool⟩
    | some state =>
      have bounded := good.states _ state found
      have start : Start (chain.Offers newHead) pool (pool.renew newHead state) := .new newHead state found
      have books₁ := books.renew newHead state
      dsimp only
      split
      · cases chain.minBaseFeeAt newHead with
        | none => exact ⟨_, _, start, rfl, books₁, .refl _⟩
        | some minimumFee =>
          have same : Same (pool.renew newHead state) { pool.renew newHead state with minimumFee := some minimumFee } :=
            ⟨rfl, rfl, rfl, rfl, rfl, rfl, rfl, rfl, rfl, fun _ => rfl⟩
          obtain ⟨pool', added, books', turned⟩ := addTxsLocked_keeps moment identified
            (same.books books₁ books₁.catalogue books₁.sane) bounded (reinjected_good good branch) chain false
          exact ⟨_, pool', start, added, books', same.turned.trans turned⟩
      · obtain ⟨pool', added, books', turned⟩ :=
          addTxsLocked_keeps moment identified books₁ bounded (reinjected_good good branch) chain false
        exact ⟨_, pool', start, added, books', turned⟩

/-! ## Settling -/

/-- The chain that the pool is at, and what is not of it. -/
structure Fixed (pool pool' : Pool) : Prop where
  config : pool'.config = pool.config
  self : pool'.self = pool.self
  head : pool'.head = pool.head
  state : pool'.state = pool.state

theorem Fixed.trans {between : Pool} (first : Fixed pool between) (second : Fixed between pool') : Fixed pool pool' :=
  ⟨second.config.trans first.config, second.self.trans first.self, second.head.trans first.head, second.state.trans first.state⟩

theorem Beside.fixed (beside : Beside addr pool pool') : Fixed pool pool' :=
  ⟨beside.config, beside.self, beside.head, beside.state⟩

theorem demoteUnexecutables_settles (books : Books terms pool) (alone : terms.guest = none) :
    ∃ pool', pool.demoteUnexecutables moment = some pool' ∧ Books terms pool' ∧ Fixed pool pool' ∧
      ∀ addr, (pool'.view addr).pending =
        View.settled (pool.state.nonce addr) (pool.fits addr) (pool.view addr).pending := by
  have perm := moment.ranges.addresses_perm pool.pending.keys
  have once : (moment.ranges.addresses pool.pending.keys).Nodup := (perm.nodup_iff).mpr pool.pending.nodupKeys
  have each : ∀ accounts : List Address, accounts.Nodup → ∃ pool',
      accounts.foldlM (fun pool addr => pool.demoteAccount moment addr) pool = some pool' ∧ Books terms pool' ∧ Fixed pool pool' ∧
      ∀ addr, (pool'.view addr).pending = if addr ∈ accounts then
        View.settled (pool.state.nonce addr) (pool.fits addr) (pool.view addr).pending else (pool.view addr).pending := by
    intro accounts
    clear once perm
    induction accounts generalizing pool with
    | nil => exact fun _ => ⟨pool, rfl, books, ⟨rfl, rfl, rfl, rfl⟩, fun addr => by simp⟩
    | cons first rest ih =>
      intro once
      obtain ⟨fresh, once⟩ := List.nodup_cons.mp once
      obtain ⟨between, demoted, books₁, beside₁, settled⟩ := demoteAccount_settles moment books alone first
      obtain ⟨pool', ran, books', fixed', left⟩ := ih books₁ once
      refine ⟨pool', by rw [List.foldlM_cons, demoted]; exact ran, books', beside₁.fixed.trans fixed', fun addr => ?_⟩
      have fits : between.fits addr = pool.fits addr := by
        unfold Pool.fits
        rw [beside₁.state, beside₁.head]
      rw [left, fits, beside₁.state]
      by_cases same : addr = first
      · subst same
        rw [if_neg fresh, if_pos List.mem_cons_self]
        exact settled
      · simp only [List.mem_cons, same, false_or, beside₁.view same]
  obtain ⟨pool', ran, books', fixed, left⟩ := each _ once
  refine ⟨pool', ran, books', fixed, fun addr => ?_⟩
  rw [left]
  split
  · rfl
  · rename_i absent
    have missing : pool.pending.lookup addr = none := by
      by_contra there
      exact absent (perm.mem_iff.mpr (AList.lookup_isSome.mp (Option.isSome_iff_ne_none.mpr there)))
    simp [view, missing, contentsOf, View.settled]

/-- A pending list in another form, with the same transactions. -/
theorem Books.touchPending (books : Books terms pool) (found : pool.pending.lookup addr = some list)
    (leaves : Leaves list [] list.contents list') :
    Books terms (pool.setPending addr list') ∧ Beside addr pool (pool.setPending addr list') ∧
      (pool.setPending addr list').view addr = pool.view addr := by
  have opened : Open terms addr [] pool := books.opened (books.reserved (hasLists_of_pending found))
  have tidy := books.tidy addr
  have moves := leavePending opened.toShelves found leaves
  have now : (pool.setPending addr list').pending.lookup addr = some list' := by simp [setPending]
  refine ⟨(opened.moves moves).close ⟨fun other member => ?_, tidy.queue⟩ (hasLists_of_pending now), moves.beside, ?_⟩
  · cases now.symm.trans member
    rw [leaves.contents]
    exact tidy.pending list found
  · rw [view, view, now, found]
    exact congrArg (View.mk · _) leaves.contents

theorem lastElement_leaves (sound : list.Sound) (nonempty : list.contents ≠ []) :
    ∃ last list', list.lastElement = some (last, list') ∧ list.contents.getLast? = some last ∧ Leaves list [] list.contents list' := by
  obtain ⟨answer, kept⟩ := sound.txs.lastElement
  obtain ⟨last, ends⟩ : ∃ last, list.contents.getLast? = some last := ⟨_, List.getLast?_eq_some_getLast nonempty⟩
  obtain ⟨⟨tx, map⟩, element, rfl⟩ := Option.map_eq_some_iff.mp (answer.trans ends)
  obtain ⟨sound', same⟩ := kept tx map element
  have contents : TxList.contents { list with txs := map } = list.contents := same
  refine ⟨tx, { list with txs := map }, by rw [TxList.lastElement, element]; rfl, ends, ⟨sound', ?_, ?_, ?_⟩, rfl, contents, .refl _⟩
  · rw [contents]
    exact sound.bounded
  · rw [contents]
    exact sound.cheap
  · rw [contents]
    exact sound.total

theorem nextNonces_spec (books : Books terms pool) {accounts : List Address}
    (there : ∀ addr ∈ accounts, ∃ list, pool.pending.lookup addr = some list) (nonces : Map Address Nat) :
    ∃ nonces' pool', pool.nextNonces accounts nonces = some (nonces', pool') ∧ Books terms pool' ∧ Fixed pool pool' ∧
      (∀ addr, pool'.view addr = pool.view addr) ∧ ∀ addr, nonces'.lookup addr = if addr ∈ accounts then
        (pool.view addr).pending.getLast?.map fun tx => (tx.nonce + 1) % 2 ^ 64 else nonces.lookup addr := by
  induction accounts generalizing pool nonces with
  | nil => exact ⟨nonces, pool, rfl, books, ⟨rfl, rfl, rfl, rfl⟩, fun _ => rfl, fun addr => by simp⟩
  | cons first rest ih =>
    obtain ⟨list, found⟩ := there first List.mem_cons_self
    obtain ⟨last, list', element, ends, leaves⟩ :=
      lastElement_leaves ((books.filed first).pendingSound list found).1 ((books.tidy first).pending list found)
    obtain ⟨books₁, beside₁, view₁⟩ := books.touchPending found leaves
    have views (addr : Address) : (pool.setPending first list').view addr = pool.view addr := by
      by_cases same : addr = first
      · rw [same, view₁]
      · exact beside₁.view same
    obtain ⟨nonces', pool', ran, books', fixed', views', lookups⟩ := ih books₁ (fun addr later => by
      by_cases same : addr = first
      · subst same
        exact ⟨list', by simp [setPending]⟩
      · rw [beside₁.pending addr same]
        exact there addr (List.mem_cons_of_mem _ later)) (nonces.insert first ((last.nonce + 1) % 2 ^ 64))
    refine ⟨nonces', pool', ?_, books', beside₁.fixed.trans fixed', fun addr => (views' addr).trans (views addr), fun addr => ?_⟩
    · simp only [nextNonces, found, element, Option.bind_eq_bind, Option.bind_some]
      exact ran
    · rw [lookups, views, lookup_insert_eq]
      by_cases same : addr = first
      · subst same
        simp [view_pending found, ends]
      · simp [same]

/-- The view of an account after it was settled at the state of the chain. -/
def resettled (pool : Pool) (addr : Address) : View :=
  let left := View.settled (pool.state.nonce addr) (pool.fits addr) (pool.view addr).pending
  ⟨left, View.nonceAfter (pool.state.nonce addr) left⟩

variable (chain) in
theorem updateBaseFeeAt_books (books : Books terms pool) (head : Head) :
    Books terms (pool.updateBaseFeeAt moment chain head) ∧ Same pool (pool.updateBaseFeeAt moment chain head) := by
  unfold updateBaseFeeAt
  cases chain.estimateNextBaseFee head with
  | none => exact ⟨books, .setPriced pool pool.priced⟩
  | some baseFee =>
    have same := Same.setPriced pool (pool.priced.setBaseFee moment.ranges pool.all baseFee)
    exact ⟨same.books books books.catalogue (books.sane.setBaseFee _ _), same⟩

variable (chain) in
theorem settleReset_settles (books : Books terms pool) (alone : terms.guest = none) (newHead : Head) :
    ∃ pool', pool.settleReset moment chain newHead = some pool' ∧ Books terms pool' ∧ Fixed pool pool' ∧
      ∀ addr, pool'.view addr = pool.resettled addr := by
  obtain ⟨pool₁, demoted, books₁, fixed₁, settled⟩ := demoteUnexecutables_settles moment books alone
  -- The prices change only the heaps.
  obtain ⟨pool₂, shape, books₂, same₂⟩ : ∃ pool₂, (if chain.isLondon newHead.number then pool₁.updateBaseFeeAt moment chain newHead
      else { pool₁ with priced := pool₁.priced.reheap moment.ranges pool₁.all }) = pool₂ ∧ Books terms pool₂ ∧ Same pool₁ pool₂ := by
    refine ⟨_, rfl, ?_⟩
    split
    · exact updateBaseFeeAt_books moment chain books₁ newHead
    · have same := Same.setPriced pool₁ (pool₁.priced.reheap moment.ranges pool₁.all)
      exact ⟨same.books books₁ books₁.catalogue (books₁.sane.reheap _), same⟩
  have perm := moment.ranges.addresses_perm pool₂.pending.keys
  have there : ∀ addr ∈ moment.ranges.addresses pool₂.pending.keys, ∃ list, pool₂.pending.lookup addr = some list :=
    fun addr member => Maps.mem_keys_iff.mp (perm.mem_iff.mp member)
  obtain ⟨nonces, pool₃, counted, books₃, fixed₃, views₃, lookups⟩ := nextNonces_spec books₂ there ∅
  have fixed := (fixed₁.trans ⟨same₂.config, same₂.self, same₂.head, same₂.state⟩).trans fixed₃
  have pending (addr : Address) : (pool₂.view addr).pending =
      View.settled (pool.state.nonce addr) (pool.fits addr) (pool.view addr).pending := by
    rw [view, same₂.pending]
    exact settled addr
  refine ⟨{ pool₃ with pendingNonces := pool₃.pendingNonces.setAll nonces }, ?_,
    ⟨books₃.filed, fun addr => ⟨⟨(books₃.tidy addr).pending, (books₃.tidy addr).queue⟩, (books₃.tidy addr).reserved⟩,
      books₃.catalogue, books₃.sane, books₃.fallback⟩, ⟨fixed.config, fixed.self, fixed.head, fixed.state⟩, fun addr => ?_⟩
  · simp only [settleReset, demoted, shape, counted, Option.bind_eq_bind, Option.bind_some]
    rfl
  · have next : (pool₃.pendingNonces.setAll nonces).next addr =
        View.nonceAfter (pool.state.nonce addr) (View.settled (pool.state.nonce addr) (pool.fits addr) (pool.view addr).pending) := by
      change (nonces.lookup addr).getD (pool₃.pendingNonces.fallback addr) = _
      rw [lookups, books₃.fallback, fixed.state, View.nonceAfter, pending]
      split
      · cases (View.settled (pool.state.nonce addr) (pool.fits addr) (pool.view addr).pending).getLast? <;> rfl
      · rename_i absent
        have missing : pool₂.pending.lookup addr = none := by
          by_contra there
          exact absent (perm.mem_iff.mpr (AList.lookup_isSome.mp (Option.isSome_iff_ne_none.mpr there)))
        have empty : (pool₂.view addr).pending = [] := by simp [view, missing, contentsOf]
        rw [← pending, empty]
        rfl
    have contents : contentsOf (pool₃.pending.lookup addr) = (pool₂.view addr).pending := congrArg View.pending (views₃ addr)
    change View.mk (contentsOf (pool₃.pending.lookup addr)) ((pool₃.pendingNonces.setAll nonces).next addr) = _
    rw [next, contents, pending]
    rfl

end Pool

end Snowside.TxPool
