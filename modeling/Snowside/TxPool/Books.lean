import Snowside.TxPool.Prices
import Snowside.TxPool.Reorg
import Snowside.TxPool.Turns

/-! The books of the pool: every transaction of it is in one list, under its sender and nonce, and in the
lookup. During a step one account is open, and some of its transactions are in no list.
-/

set_option autoImplicit false

namespace Snowside.TxPool

open Evm (Address)
open Maps (Map lookup_insert_eq lookup_erase_eq)
open Precompile (Hash)
open TxList (costBound Leaves)

def contentsOf (list : Option TxList) : List Transaction := (list.map TxList.contents).getD []

namespace Pool

/-- What an account has pending, and the nonce after. -/
def view (pool : Pool) (addr : Address) : View := ⟨contentsOf (pool.pending.lookup addr), pool.pendingNonces.next addr⟩

/-- The transactions in the lists of an account. -/
def stock (pool : Pool) (addr : Address) : List Transaction :=
  contentsOf (pool.pending.lookup addr) ++ contentsOf (pool.queue.lookup addr)

/-- In a list, or loose during a step. -/
def Held (pool : Pool) (loose : List Transaction) (tx : Transaction) : Prop := tx ∈ pool.stock tx.from_ ∨ tx ∈ loose

/-- The lists of an account, with transactions of it that are in neither. -/
structure Filed (ok : Transaction → Prop) (addr : Address) (loose : List Transaction) (pending queue : Option TxList) : Prop where
  pendingSound : ∀ list ∈ pending, list.Sound ∧ list.strict = true
  queueSound : ∀ list ∈ queue, list.Sound ∧ list.strict = false
  apart : ((contentsOf pending ++ contentsOf queue ++ loose).map Transaction.nonce).Nodup
  sent : ∀ tx ∈ contentsOf pending ++ contentsOf queue ++ loose, tx.sender = some addr ∧ tx.cost < costBound ∧ ok tx

/-- The queue of an account is not empty, and the account has a heartbeat. -/
def Waiting (addr : Address) (pool : Pool) : Prop :=
  ∀ list ∈ pool.queue.lookup addr, list.contents ≠ [] ∧ (pool.beats.lookup addr).isSome

/-- No list of an account is empty. -/
structure Full (addr : Address) (pool : Pool) : Prop where
  pending : ∀ list ∈ pool.pending.lookup addr, list.contents ≠ []
  queue : Waiting addr pool

/-- Between the parts of a step the pool has reserved exactly the accounts with lists and that of a guest,
whose transaction is about to be added. -/
structure Tidy (guest : Option Address) (addr : Address) (pool : Pool) : Prop extends Full addr pool where
  reserved : pool.reservations.lookup addr = some pool.self ↔ pool.hasLists addr = true ∨ guest = some addr

structure Books (terms : Terms) (pool : Pool) : Prop where
  filed : ∀ addr, Filed terms.ok addr [] (pool.pending.lookup addr) (pool.queue.lookup addr)
  tidy : ∀ addr, Tidy terms.guest addr pool
  catalogue : Catalogue pool.all (pool.Held [])
  sane : Sane terms pool.all pool.priced
  fallback : pool.pendingNonces.fallback = pool.state.nonce

/-- The lists while an account is open. -/
structure Shelves (terms : Terms) (addr : Address) (loose : List Transaction) (pool : Pool) : Prop where
  filed : Filed terms.ok addr loose (pool.pending.lookup addr) (pool.queue.lookup addr)
  others : ∀ other, other ≠ addr →
    Filed terms.ok other [] (pool.pending.lookup other) (pool.queue.lookup other) ∧ Tidy terms.guest other pool
  sane : Sane terms pool.all pool.priced
  fallback : pool.pendingNonces.fallback = pool.state.nonce
  reserved : pool.reservations.lookup addr = some pool.self

structure Open (terms : Terms) (addr : Address) (loose : List Transaction) (pool : Pool) : Prop
    extends Shelves terms addr loose pool where
  catalogue : Catalogue pool.all (pool.Held loose)

/-- Nothing changes but for one account. -/
structure Beside (addr : Address) (pool pool' : Pool) : Prop where
  config : pool'.config = pool.config
  self : pool'.self = pool.self
  head : pool'.head = pool.head
  state : pool'.state = pool.state
  locals : pool'.locals = pool.locals
  fallback : pool'.pendingNonces.fallback = pool.pendingNonces.fallback
  pending : ∀ other, other ≠ addr → pool'.pending.lookup other = pool.pending.lookup other
  queue : ∀ other, other ≠ addr → pool'.queue.lookup other = pool.queue.lookup other
  beats : ∀ other, other ≠ addr → pool'.beats.lookup other = pool.beats.lookup other
  reservations : ∀ other, other ≠ addr → pool'.reservations.lookup other = pool.reservations.lookup other
  next : ∀ other, other ≠ addr → pool'.pendingNonces.next other = pool.pendingNonces.next other

/-- Transactions of the open account move between its lists and those in no list. -/
structure Moves (terms : Terms) (addr : Address) (loose loose' : List Transaction) (pool pool' : Pool) : Prop where
  beside : Beside addr pool pool'
  shelves : Shelves terms addr loose' pool'
  perm : (pool'.stock addr ++ loose').Perm (pool.stock addr ++ loose)
  all : pool'.all = pool.all
  priced : pool'.priced = pool.priced
  reservations : pool'.reservations = pool.reservations

variable {terms : Terms} {ok : Transaction → Prop} {addr : Address} {loose loose' gone left : List Transaction} {pool pool' : Pool}
  {tx : Transaction} {list list' : TxList} {pending queue : Option TxList}

/-! ## Frames -/

theorem from_eq (sent : tx.sender = some addr) : tx.from_ = addr := by simp [Transaction.from_, sent]

namespace Beside

theorem refl (pool : Pool) : Beside addr pool pool :=
  ⟨rfl, rfl, rfl, rfl, rfl, rfl, fun _ _ => rfl, fun _ _ => rfl, fun _ _ => rfl, fun _ _ => rfl, fun _ _ => rfl⟩

theorem trans {pool'' : Pool} (first : Beside addr pool pool') (second : Beside addr pool' pool'') : Beside addr pool pool'' where
  config := second.config.trans first.config
  self := second.self.trans first.self
  head := second.head.trans first.head
  state := second.state.trans first.state
  locals := second.locals.trans first.locals
  fallback := second.fallback.trans first.fallback
  pending other apart := (second.pending other apart).trans (first.pending other apart)
  queue other apart := (second.queue other apart).trans (first.queue other apart)
  beats other apart := (second.beats other apart).trans (first.beats other apart)
  reservations other apart := (second.reservations other apart).trans (first.reservations other apart)
  next other apart := (second.next other apart).trans (first.next other apart)

theorem stock (beside : Beside addr pool pool') {other : Address} (apart : other ≠ addr) : pool'.stock other = pool.stock other := by
  rw [Pool.stock, Pool.stock, beside.pending other apart, beside.queue other apart]

theorem view (beside : Beside addr pool pool') {other : Address} (apart : other ≠ addr) : pool'.view other = pool.view other := by
  rw [Pool.view, Pool.view, beside.pending other apart, beside.next other apart]

theorem tidy (beside : Beside addr pool pool') {other : Address} (apart : other ≠ addr) (tidy : Tidy terms.guest other pool) :
    Tidy terms.guest other pool' := by
  refine ⟨⟨?_, ?_⟩, ?_⟩
  · rw [beside.pending other apart]
    exact tidy.pending
  · rw [Waiting, beside.queue other apart, beside.beats other apart]
    exact tidy.queue
  · rw [beside.reservations other apart, beside.self, hasLists, beside.pending other apart, beside.queue other apart]
    exact tidy.reserved

theorem setPending (pool : Pool) (list : TxList) : Beside addr pool (pool.setPending addr list) :=
  { Beside.refl pool with pending := fun other apart => by simp [Pool.setPending, apart] }

theorem setQueue (pool : Pool) (list : TxList) : Beside addr pool (pool.setQueue addr list) :=
  { Beside.refl pool with queue := fun other apart => by simp [Pool.setQueue, apart] }

theorem forget (pool : Pool) (txs : List Transaction) : Beside addr pool (pool.forget txs) :=
  ⟨rfl, rfl, rfl, rfl, rfl, rfl, fun _ _ => rfl, fun _ _ => rfl, fun _ _ => rfl, fun _ _ => rfl, fun _ _ => rfl⟩

theorem pricedRemoved (pool : Pool) (moment : Moment) (count : Nat) : Beside addr pool (pool.pricedRemoved moment count) :=
  ⟨rfl, rfl, rfl, rfl, rfl, rfl, fun _ _ => rfl, fun _ _ => rfl, fun _ _ => rfl, fun _ _ => rfl, fun _ _ => rfl⟩

end Beside

theorem Shelves.move (shelves : Shelves terms addr loose pool) (beside : Beside addr pool pool')
    (filed : Filed terms.ok addr loose' (pool'.pending.lookup addr) (pool'.queue.lookup addr))
    (sane : Sane terms pool'.all pool'.priced)
    (reserved : pool'.reservations.lookup addr = pool.reservations.lookup addr) : Shelves terms addr loose' pool' where
  filed := filed
  sane := sane
  others other apart := by
    obtain ⟨filed, tidy⟩ := shelves.others other apart
    rw [beside.pending other apart, beside.queue other apart]
    exact ⟨filed, beside.tidy apart tidy⟩
  fallback := by rw [beside.fallback, beside.state]; exact shelves.fallback
  reserved := by rw [reserved, beside.self]; exact shelves.reserved

/-- The heaps have been brought up to date with the lookup, or not yet. -/
theorem Shelves.swap {guest : Option Address} {absent absent' : List Transaction}
    (shelves : Shelves ⟨ok, guest, absent⟩ addr loose pool)
    (sane : Sane ⟨ok, guest, absent'⟩ pool.all pool.priced) : Shelves ⟨ok, guest, absent'⟩ addr loose pool :=
  ⟨shelves.filed, shelves.others, sane, shelves.fallback, shelves.reserved⟩

/-- The nonces and the senders stay as the transactions move. -/
theorem Filed.moved (filed : Filed ok addr loose pending queue) {pending' queue' : Option TxList}
    (pendingSound : ∀ list ∈ pending', list.Sound ∧ list.strict = true)
    (queueSound : ∀ list ∈ queue', list.Sound ∧ list.strict = false)
    (perm : (contentsOf pending' ++ contentsOf queue' ++ loose').Perm (contentsOf pending ++ contentsOf queue ++ loose)) :
    Filed ok addr loose' pending' queue' where
  pendingSound := pendingSound
  queueSound := queueSound
  apart := ((perm.map _).nodup_iff).mpr filed.apart
  sent tx member := filed.sent tx (perm.mem_iff.mp member)

theorem Moves.of_perm (shelves : Shelves terms addr loose pool) (beside : Beside addr pool pool')
    (pendingSound : ∀ list ∈ pool'.pending.lookup addr, list.Sound ∧ list.strict = true)
    (queueSound : ∀ list ∈ pool'.queue.lookup addr, list.Sound ∧ list.strict = false)
    (perm : (pool'.stock addr ++ loose').Perm (pool.stock addr ++ loose)) (all : pool'.all = pool.all)
    (priced : pool'.priced = pool.priced) (reservations : pool'.reservations = pool.reservations) :
    Moves terms addr loose loose' pool pool' where
  beside := beside
  shelves := shelves.move beside (shelves.filed.moved pendingSound queueSound perm) (by rw [all, priced]; exact shelves.sane)
    (by rw [reservations])
  perm := perm
  all := all
  priced := priced
  reservations := reservations

theorem Moves.refl (shelves : Shelves terms addr loose pool) : Moves terms addr loose loose pool pool :=
  ⟨.refl pool, shelves, .refl _, rfl, rfl, rfl⟩

theorem Moves.trans {between : Pool} {middle : List Transaction} (first : Moves terms addr loose middle pool between)
    (second : Moves terms addr middle loose' between pool') : Moves terms addr loose loose' pool pool' :=
  ⟨first.beside.trans second.beside, second.shelves, second.perm.trans first.perm, second.all.trans first.all,
    second.priced.trans first.priced, second.reservations.trans first.reservations⟩

theorem Filed.of_mem (filed : Filed ok addr loose pending queue)
    (member : tx ∈ contentsOf pending ++ contentsOf queue ++ loose) : tx.from_ = addr :=
  from_eq (filed.sent tx member).1

/-- What is held stays as transactions of the open account move. -/
theorem Moves.held (moves : Moves terms addr loose loose' pool pool') (shelves : Shelves terms addr loose pool) (tx : Transaction) :
    pool.Held loose tx ↔ pool'.Held loose' tx := by
  have own {loose : List Transaction} {pool : Pool} (shelves : Shelves terms addr loose pool) (here : tx ∈ loose) :
      tx.from_ = addr := shelves.filed.of_mem (List.mem_append_right _ here)
  by_cases same : tx.from_ = addr
  · have iff := moves.perm.mem_iff (a := tx)
    simp only [List.mem_append] at iff
    rw [Held, Held, same]
    exact iff.symm
  · have absent : tx ∉ loose := fun here => same (own shelves here)
    have absent' : tx ∉ loose' := fun here => same (own moves.shelves here)
    simp [Held, moves.beside.stock same, absent, absent']

theorem Open.moves (opened : Open terms addr loose pool) (moves : Moves terms addr loose loose' pool pool') :
    Open terms addr loose' pool' :=
  ⟨moves.shelves, by rw [moves.all]; exact opened.catalogue.congr (moves.held opened.toShelves)⟩

/-! ## The lists -/

theorem leavePending (shelves : Shelves terms addr loose pool) (found : pool.pending.lookup addr = some list)
    (leaves : Leaves list gone left list') : Moves terms addr loose (gone ++ loose) pool (pool.setPending addr list') := by
  have now : (pool.setPending addr list').pending.lookup addr = some list' := by simp [setPending]
  have strict := (shelves.filed.pendingSound list found).2
  refine .of_perm shelves (.setPending pool list') ?_ shelves.filed.queueSound ?_ rfl rfl rfl
  · intro other member
    cases now.symm.trans member
    exact ⟨leaves.sound, leaves.strict.trans strict⟩
  · have split := leaves.split
    simp only [stock, now, found, contentsOf, Option.map_some, Option.getD_some, leaves.contents]
    change ((left ++ contentsOf (pool.queue.lookup addr)) ++ (gone ++ loose)).Perm
      ((list.contents ++ contentsOf (pool.queue.lookup addr)) ++ loose)
    grind

theorem leaveQueue (shelves : Shelves terms addr loose pool) (found : pool.queue.lookup addr = some list)
    (leaves : Leaves list gone left list') : Moves terms addr loose (gone ++ loose) pool (pool.setQueue addr list') := by
  have now : (pool.setQueue addr list').queue.lookup addr = some list' := by simp [setQueue]
  have strict := (shelves.filed.queueSound list found).2
  refine .of_perm shelves (.setQueue pool list') shelves.filed.pendingSound ?_ ?_ rfl rfl rfl
  · intro other member
    cases now.symm.trans member
    exact ⟨leaves.sound, leaves.strict.trans strict⟩
  · have split := leaves.split
    simp only [stock, now, found, contentsOf, Option.map_some, Option.getD_some, leaves.contents]
    change ((contentsOf (pool.pending.lookup addr) ++ left) ++ (gone ++ loose)).Perm
      ((contentsOf (pool.pending.lookup addr) ++ list.contents) ++ loose)
    grind

theorem Filed.drop (filed : Filed ok addr (tx :: loose) pending queue) :
    Filed ok addr loose pending queue ∧ tx ∉ contentsOf pending ++ contentsOf queue ++ loose := by
  have perm : (contentsOf pending ++ contentsOf queue ++ tx :: loose).Perm
      (tx :: (contentsOf pending ++ contentsOf queue ++ loose)) := List.perm_middle
  have apart := ((perm.map Transaction.nonce).nodup_iff).mp filed.apart
  rw [List.map_cons, List.nodup_cons] at apart
  refine ⟨⟨filed.pendingSound, filed.queueSound, apart.2, fun other member => ?_⟩, fun member => ?_⟩
  · exact filed.sent other (perm.mem_iff.mpr (List.mem_cons_of_mem _ member))
  · exact apart.1 (List.mem_map.mpr ⟨tx, member, rfl⟩)

/-- What is held without a loose transaction. -/
theorem Shelves.held_drop (shelves : Shelves terms addr (tx :: loose) pool) (other : Transaction) :
    pool.Held (tx :: loose) other ∧ other ≠ tx ↔ pool.Held loose other := by
  obtain ⟨-, absent⟩ := shelves.filed.drop
  have own : tx.from_ = addr := shelves.filed.of_mem (List.mem_append_right _ List.mem_cons_self)
  simp only [Held, List.mem_cons]
  constructor
  · rintro ⟨listed | rfl | there, differs⟩
    · exact .inl listed
    · exact absurd rfl differs
    · exact .inr there
  · rintro (listed | there)
    · refine ⟨.inl listed, ?_⟩
      rintro rfl
      rw [own] at listed
      exact absent (List.mem_append_left _ listed)
    · refine ⟨.inr (.inr there), ?_⟩
      rintro rfl
      exact absent (List.mem_append_right _ there)

theorem Open.forgetOne (opened : Open terms addr (tx :: loose) pool) : Open terms addr loose (pool.forget [tx]) := by
  refine ⟨opened.move (.forget pool [tx]) opened.filed.drop.1 (opened.sane.remove tx.hash) rfl, ?_⟩
  have removed := opened.catalogue.remove (.inr (List.mem_cons_self : tx ∈ tx :: loose))
  exact removed.congr opened.held_drop

theorem Open.forget (opened : Open terms addr (gone ++ loose) pool) : Open terms addr loose (pool.forget gone) := by
  induction gone generalizing pool with
  | nil => exact opened
  | cons tx rest ih => exact ih opened.forgetOne

theorem Open.pricedRemoved (opened : Open terms addr loose pool) (moment : Moment) (count : Nat) :
    Open terms addr loose (pool.pricedRemoved moment count) :=
  ⟨opened.move (.pricedRemoved pool moment count) opened.filed (opened.sane.removed _ _) rfl, opened.catalogue⟩

/-! ## Back to the queue -/

variable (moment : Moment)

theorem contentsOf_getD (list : Option TxList) (strict : Bool) : (list.getD (newList strict)).contents = contentsOf list := by
  cases list with
  | none => exact TxList.contents_newList strict
  | some list => rfl

theorem sound_getD {strict : Bool} (sound : ∀ list ∈ pending, list.Sound ∧ list.strict = strict) :
    (pending.getD (newList strict)).Sound ∧ (pending.getD (newList strict)).strict = strict := by
  cases pending with
  | none => exact ⟨TxList.sound_newList strict, rfl⟩
  | some list => exact sound list rfl

/-- A transaction with a new nonce enters a list. -/
theorem add_new (sound : list.Sound) (cheap : tx.cost < costBound) (new : ∀ other ∈ list.contents, other.nonce ≠ tx.nonce)
    (priceBump : Nat) : ∃ list', list.add tx priceBump = some (true, none, list') ∧ list'.Sound ∧
      list'.strict = list.strict ∧ list'.contents = Sorted.put Transaction.nonce tx list.contents ∧
      list'.contents.Perm (tx :: list.contents) := by
  have absent : list.txs.get tx.nonce = none := by
    cases found : list.txs.get tx.nonce with
    | none => rfl
    | some old =>
      obtain ⟨member, same⟩ := sound.get_iff.mp found
      exact absurd same (new old member)
  obtain ⟨list', added, sound', strict, contents⟩ := sound.add cheap fun old member same => absurd same (new old member)
  refine ⟨list', by rw [added, absent], sound', strict, contents, ?_⟩
  have perm : (Sorted.put Transaction.nonce tx list.contents).Perm (tx :: list.contents.filter (·.nonce ≠ tx.nonce)) :=
    Sorted.put_perm tx list.contents
  rw [List.filter_eq_self.mpr (by simpa using new)] at perm
  rw [contents]
  exact perm

/-- Only the queue of an account grows. -/
structure Fills (addr : Address) (pool pool' : Pool) : Prop where
  pending : pool'.pending = pool.pending
  nonces : pool'.pendingNonces = pool.pendingNonces
  waiting : Waiting addr pool → Waiting addr pool'

theorem Fills.refl (pool : Pool) : Fills addr pool pool := ⟨rfl, rfl, id⟩

theorem Fills.trans {between : Pool} (first : Fills addr pool between) (second : Fills addr between pool') :
    Fills addr pool pool' :=
  ⟨second.pending.trans first.pending, second.nonces.trans first.nonces, second.waiting ∘ first.waiting⟩

/-- The nonces of the loose transactions are not in the lists. -/
theorem Filed.new (filed : Filed ok addr (tx :: loose) pending queue) :
    ∀ other ∈ contentsOf pending ++ contentsOf queue, other.nonce ≠ tx.nonce := by
  intro other member same
  have apart := filed.apart
  rw [List.map_append, List.nodup_append] at apart
  exact apart.2.2 other.nonce (List.mem_map.mpr ⟨other, member, rfl⟩) tx.nonce
    (List.mem_map.mpr ⟨tx, List.mem_cons_self, rfl⟩) same

theorem enqueue (shelves : Shelves terms addr (tx :: loose) pool) :
    ∃ pool', pool.enqueueTx moment tx false false = some (.ok false, pool') ∧
      Moves terms addr (tx :: loose) loose pool pool' ∧ Fills addr pool pool' := by
  have sent := shelves.filed.sent tx (List.mem_append_right _ List.mem_cons_self)
  obtain rfl : tx.from_ = addr := from_eq sent.1
  obtain ⟨sound, strict⟩ := sound_getD shelves.filed.queueSound
  have new := shelves.filed.new
  have same := contentsOf_getD (pool.queue.lookup tx.from_) false
  obtain ⟨list', added, sound', strict', contents, perm⟩ :=
    add_new sound sent.2.1 (fun other member => new other (List.mem_append_right _ (same ▸ member))) pool.config.priceBump
  rw [same] at perm
  have now : (pool.setQueue tx.from_ list').queue.lookup tx.from_ = some list' := by simp [setQueue]
  have nonempty : list'.contents ≠ [] := fun empty => by
    rw [empty] at perm
    exact absurd perm.symm.eq_nil (List.cons_ne_nil _ _)
  have moves : Moves terms tx.from_ (tx :: loose) loose pool (pool.setQueue tx.from_ list') := by
    refine .of_perm shelves (.setQueue pool list') shelves.filed.pendingSound ?_ ?_ rfl rfl rfl
    · intro other member
      cases now.symm.trans member
      exact ⟨sound', strict'.trans strict⟩
    · simp only [stock, now, contentsOf, Option.map_some, Option.getD_some]
      change ((contentsOf (pool.pending.lookup tx.from_) ++ list'.contents) ++ loose).Perm
        ((contentsOf (pool.pending.lookup tx.from_) ++ contentsOf (pool.queue.lookup tx.from_)) ++ tx :: loose)
      grind
  have evaluated : pool.enqueueTx moment tx false false = some (.ok false,
      if (pool.setQueue tx.from_ list').beats.lookup tx.from_ = none then
        { pool.setQueue tx.from_ list' with beats := (pool.setQueue tx.from_ list').beats.insert tx.from_ (moment.now tx.from_) }
      else pool.setQueue tx.from_ list') := by
    rw [enqueueTx]
    simp only [added, Option.bind_eq_bind, Option.bind_some]
    rfl
  refine ⟨_, evaluated, ?_⟩
  split
  · have beside : Beside tx.from_ (pool.setQueue tx.from_ list')
        { pool.setQueue tx.from_ list' with beats := (pool.setQueue tx.from_ list').beats.insert tx.from_ (moment.now tx.from_) } :=
      ⟨rfl, rfl, rfl, rfl, rfl, rfl, fun _ _ => rfl, fun _ _ => rfl, fun other apart => by simp [apart], fun _ _ => rfl,
        fun _ _ => rfl⟩
    refine ⟨⟨moves.beside.trans beside, moves.shelves.move beside moves.shelves.filed moves.shelves.sane rfl, moves.perm,
      rfl, rfl, rfl⟩, rfl, rfl, ?_⟩
    intro _ other member
    cases now.symm.trans member
    exact ⟨nonempty, by simp⟩
  · rename_i beating
    refine ⟨moves, rfl, rfl, fun _ other member => ?_⟩
    cases now.symm.trans member
    exact ⟨nonempty, Option.isSome_iff_ne_none.mpr beating⟩

theorem requeue_loose {txs : List Transaction} (shelves : Shelves terms addr (txs ++ loose) pool) :
    ∃ pool', pool.requeue moment txs = some pool' ∧ Moves terms addr (txs ++ loose) loose pool pool' ∧ Fills addr pool pool' := by
  induction txs generalizing pool with
  | nil => exact ⟨pool, rfl, .refl shelves, .refl pool⟩
  | cons tx rest ih =>
    obtain ⟨between, enqueued, moves, fills⟩ := enqueue moment shelves
    obtain ⟨pool', requeued, moves', fills'⟩ := ih moves.shelves
    refine ⟨pool', ?_, moves.trans moves', fills.trans fills'⟩
    rw [requeue, List.foldlM_cons, enqueued]
    exact requeued

/-! ## Promotion -/

/-- Only the pending transactions of an account change. -/
structure Raises (addr : Address) (pool pool' : Pool) : Prop where
  queue : pool'.queue = pool.queue
  filled : (∀ list ∈ pool.pending.lookup addr, list.contents ≠ []) → ∀ list ∈ pool'.pending.lookup addr, list.contents ≠ []
  beating : (pool.beats.lookup addr).isSome → (pool'.beats.lookup addr).isSome

theorem Raises.refl (pool : Pool) : Raises addr pool pool := ⟨rfl, id, id⟩

theorem Raises.trans {between : Pool} (first : Raises addr pool between) (second : Raises addr between pool') :
    Raises addr pool pool' :=
  ⟨second.queue.trans first.queue, second.filled ∘ first.filled, second.beating ∘ first.beating⟩

theorem promote (shelves : Shelves terms addr (tx :: loose) pool) :
    ∃ pool', pool.promoteTx moment addr tx = some (true, pool') ∧
      Moves terms addr (tx :: loose) loose pool pool' ∧ Raises addr pool pool' ∧
      pool'.view addr = ⟨Sorted.put Transaction.nonce tx (pool.view addr).pending, (tx.nonce + 1) % 2 ^ 64⟩ := by
  have sent := shelves.filed.sent tx (List.mem_append_right _ List.mem_cons_self)
  obtain ⟨sound, strict⟩ := sound_getD shelves.filed.pendingSound
  have new := shelves.filed.new
  have same := contentsOf_getD (pool.pending.lookup addr) true
  obtain ⟨list', added, sound', strict', contents, perm⟩ :=
    add_new sound sent.2.1 (fun other member => new other (List.mem_append_left _ (same ▸ member))) pool.config.priceBump
  rw [same] at perm contents
  have now : (pool.setPending addr list').pending.lookup addr = some list' := by simp [setPending]
  have nonempty : list'.contents ≠ [] := fun empty => by
    rw [empty] at perm
    exact absurd perm.symm.eq_nil (List.cons_ne_nil _ _)
  have moves : Moves terms addr (tx :: loose) loose pool (pool.setPending addr list') := by
    refine .of_perm shelves (.setPending pool list') ?_ shelves.filed.queueSound ?_ rfl rfl rfl
    · intro other member
      cases now.symm.trans member
      exact ⟨sound', strict'.trans strict⟩
    · simp only [stock, now, contentsOf, Option.map_some, Option.getD_some]
      change ((list'.contents ++ contentsOf (pool.queue.lookup addr)) ++ loose).Perm
        ((contentsOf (pool.pending.lookup addr) ++ contentsOf (pool.queue.lookup addr)) ++ tx :: loose)
      grind
  refine ⟨{ pool.setPending addr list' with
    pendingNonces := pool.pendingNonces.set addr ((tx.nonce + 1) % 2 ^ 64)
    beats := pool.beats.insert addr (moment.now addr) }, ?_, ?_, ⟨rfl, fun _ => ?_, fun _ => by simp⟩, ?_⟩
  · rw [promoteTx, added]
    rfl
  · have beside : Beside addr (pool.setPending addr list') { pool.setPending addr list' with
        pendingNonces := pool.pendingNonces.set addr ((tx.nonce + 1) % 2 ^ 64)
        beats := pool.beats.insert addr (moment.now addr) } :=
      ⟨rfl, rfl, rfl, rfl, rfl, rfl, fun _ _ => rfl, fun _ _ => rfl, fun other apart => by simp [setPending, apart],
        fun _ _ => rfl, fun other apart => by simp [setPending, Noncer.next_set, apart]⟩
    exact ⟨moves.beside.trans beside, moves.shelves.move beside moves.shelves.filed moves.shelves.sane rfl, moves.perm,
      rfl, rfl, rfl⟩
  · intro other member
    cases now.symm.trans member
    exact nonempty
  · change View.mk (contentsOf ((pool.setPending addr list').pending.lookup addr)) _ = View.mk _ _
    rw [now]
    simp only [Noncer.next_set, if_true]
    exact congrArg (View.mk · _) contents

/-- Transactions with consecutive nonces are promoted, each by a turn. -/
theorem promote_run {txs : List Transaction} {start : Nat} (shelves : Shelves terms addr (txs ++ loose) pool)
    (consecutive : txs.map Transaction.nonce = List.range' start txs.length)
    (bounds : txs ≠ [] → pool.state.nonce addr ≤ start ∧ start ≤ (pool.view addr).next)
    (paid : ∀ tx ∈ txs, tx.cost ≤ pool.state.balance addr) :
    ∃ pool', pool.promoteTxs moment addr txs = some pool' ∧ Moves terms addr (txs ++ loose) loose pool pool' ∧
      Raises addr pool pool' ∧
      Turns terms.ok (pool.state.nonce addr) (pool.state.balance addr) (pool.view addr) (pool'.view addr) := by
  induction txs generalizing pool start with
  | nil => exact ⟨pool, rfl, .refl shelves, .refl pool, .refl⟩
  | cons tx rest ih =>
    rw [List.map_cons, List.length_cons, List.range'_succ] at consecutive
    obtain ⟨first, consecutive⟩ := List.cons.inj consecutive
    have sent := shelves.filed.sent tx (List.mem_append_right _ List.mem_cons_self)
    have turn : Turn terms.ok (pool.state.nonce addr) (pool.state.balance addr) (pool.view addr)
        ⟨Sorted.put Transaction.nonce tx (pool.view addr).pending, (tx.nonce + 1) % 2 ^ 64⟩ := by
      obtain ⟨reached, next⟩ := bounds (List.cons_ne_nil _ _)
      refine .promote (first ▸ reached) (first ▸ next) ?_ (paid tx List.mem_cons_self) sent.2.2
      exact fun other member => shelves.filed.new other (List.mem_append_left _ member)
    obtain ⟨between, promoted, moves, raises, view⟩ := promote moment shelves
    have state := moves.beside.state
    have bounds' : rest ≠ [] → between.state.nonce addr ≤ start + 1 ∧ start + 1 ≤ (between.view addr).next := fun nonempty => by
      -- The next transaction has a nonce of 64 bits.
      obtain ⟨after, later, rfl⟩ := List.exists_cons_of_ne_nil nonempty
      rw [List.map_cons, List.length_cons, List.range'_succ] at consecutive
      have second := (List.cons.inj consecutive).1
      have bound := after.nonce_lt
      have reached := (bounds (List.cons_ne_nil _ _)).1
      rw [view, state]
      change _ ∧ start + 1 ≤ (tx.nonce + 1) % 2 ^ 64
      omega
    obtain ⟨pool', ran, moves', raises', turns⟩ := ih moves.shelves consecutive bounds'
      (by rw [state]; exact fun other member => paid other (List.mem_cons_of_mem _ member))
    rw [state, view] at turns
    refine ⟨pool', ?_, moves.trans moves', raises.trans raises', .head turn turns⟩
    rw [promoteTxs, List.foldlM_cons, promoted]
    exact ran

end Pool

end Snowside.TxPool
