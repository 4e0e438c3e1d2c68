import Snowside.Collections.Erasing
import Snowside.Collections.Heap
import Snowside.Collections.Sorted
import Snowside.Precompile.Words

/-! The transactions of one account by their nonces: a map, a heap of its nonces and a cache of
its sorted values. It stands for a list in the order of the nonces.
-/

set_option autoImplicit false

namespace Snowside.TxPool

open Evm (Address)
open Maps (Map eraseAll values)
open Precompile (Hash)
open Sorted (Increasing)

/-- What the pool asks of a transaction. -/
structure Transaction where
  hash : Hash
  /-- `Sender`, of a good signature. -/
  sender : Option Address
  type : UInt8
  nonce : Nat
  gasFeeCap : Nat
  gasTipCap : Nat
  gas : Nat
  value : Nat
  size : Nat
  nonce_lt : nonce < 2 ^ 64
  deriving DecidableEq, Repr

/-- What it costs at most: its gas at the fee cap, and its value. -/
def Transaction.cost (tx : Transaction) : Nat := tx.gasFeeCap * tx.gas + tx.value

/-- The orders in which a step visits the keys of the maps that it ranges over. -/
structure Ranges where
  nonces : List Nat → List Nat
  addresses : List Address → List Address
  hashes : List Hash → List Hash
  nonces_perm : ∀ keys, (nonces keys).Perm keys
  addresses_perm : ∀ keys, (addresses keys).Perm keys
  hashes_perm : ∀ keys, (hashes keys).Perm keys

/-- `Less` of a nonceHeap. -/
def nonceLess (first second : Nat) : Bool := first < second

structure SortedMap where
  items : Map Nat Transaction
  index : List Nat
  cache : Option (List Transaction)

namespace SortedMap

def new : SortedMap := { items := ∅, index := [], cache := none }

def get (m : SortedMap) (nonce : Nat) : Option Transaction := m.items.lookup nonce

def put (m : SortedMap) (tx : Transaction) : SortedMap where
  items := m.items.insert tx.nonce tx
  index := if m.items.lookup tx.nonce = none then Heap.push nonceLess m.index tx.nonce else m.index
  cache := none

/-- Pops while the lowest nonce is below the threshold. A nonce of the index without a
transaction is a nil pointer, which its first use makes a panic. -/
def forwardLoop (threshold : Nat) (items : Map Nat Transaction) (index : List Nat) :
    Option (List Transaction × Map Nat Transaction × List Nat) :=
  match _popped : Heap.pop nonceLess index with
  | some (nonce, rest) =>
      if nonce < threshold then do
        let tx ← items.lookup nonce
        let (removed, items, index) ← forwardLoop threshold (items.erase nonce) rest
        return (tx :: removed, items, index)
      else some ([], items, index)
  | none => some ([], items, index)
  termination_by index.length
  decreasing_by exact Heap.length_lt_of_pop _popped

def forward (m : SortedMap) (threshold : Nat) : Option (List Transaction × SortedMap) := do
  let (removed, items, index) ← forwardLoop threshold m.items m.index
  return (removed, { items, index, cache := m.cache.map (·.drop removed.length) })

def reheap (ranges : Ranges) (m : SortedMap) : SortedMap :=
  { m with index := Heap.init nonceLess (ranges.nonces m.items.keys), cache := none }

/-- `filter`, which leaves the heap as it is. -/
def filterItems (ranges : Ranges) (m : SortedMap) (p : Transaction → Bool) : List Transaction × SortedMap :=
  let visited := (ranges.nonces m.items.keys).filter fun nonce => (m.items.lookup nonce).any p
  let removed := visited.filterMap m.items.lookup
  (removed, { m with items := eraseAll visited m.items, cache := if removed.isEmpty then m.cache else none })

/-- `Filter`, which makes the heap anew. -/
def filter (ranges : Ranges) (m : SortedMap) (p : Transaction → Bool) : List Transaction × SortedMap :=
  let (removed, m) := m.filterItems ranges p
  (removed, if removed.isEmpty then m else m.reheap ranges)

def cap (m : SortedMap) (threshold : Int) : Option (List Transaction × SortedMap) :=
  let size := m.items.keys.length
  if size ≤ threshold then some ([], m)
  else
    let index := m.index.mergeSort (· ≤ ·)
    -- An index out of range is a panic.
    if threshold < 0 ∨ index.length < size then none
    else do
      let highest := ((index.take size).drop threshold.toNat).reverse
      let drops ← highest.mapM m.items.lookup
      return (drops, {
        items := eraseAll highest m.items
        index := index.take threshold.toNat
        cache := m.cache.map fun cache => cache.take (cache.length - drops.length) })

def remove (m : SortedMap) (nonce : Nat) : Bool × SortedMap :=
  if m.items.lookup nonce = none then (false, m)
  else (true, {
    items := m.items.erase nonce
    index := (((m.index.findIdx? (· = nonce)).bind (Heap.remove nonceLess m.index)).map Prod.snd).getD m.index
    cache := none })

/-- Pops while the lowest nonce is the next one. -/
def readyLoop (next : Nat) (items : Map Nat Transaction) (index : List Nat) :
    Option (List Transaction × Map Nat Transaction × List Nat) :=
  match _popped : Heap.pop nonceLess index with
  | some (nonce, rest) =>
      if nonce = next then do
        let tx ← items.lookup next
        let (ready, items, index) ← readyLoop ((next + 1) % 2 ^ 64) (items.erase next) rest
        return (tx :: ready, items, index)
      else some ([], items, index)
  | none => some ([], items, index)
  termination_by index.length
  decreasing_by exact Heap.length_lt_of_pop _popped

def ready (m : SortedMap) (start : Nat) : Option (List Transaction × SortedMap) :=
  match m.index with
  | [] => some ([], m)
  | first :: _ =>
      if start < first then some ([], m)
      else do
        let (ready, items, index) ← readyLoop first m.items m.index
        return (ready, { items, index, cache := none })

def len (m : SortedMap) : Nat := m.items.keys.length

/-- The values in the order of their nonces. -/
def sorted (items : Map Nat Transaction) : List Transaction := Sorted.sort Transaction.nonce (values items)

def flatten (m : SortedMap) : List Transaction × SortedMap :=
  let cache := m.cache.getD (sorted m.items)
  (cache, { m with cache := some cache })

/-- A panic for an empty map. -/
def lastElement (m : SortedMap) : Option (Transaction × SortedMap) :=
  let (cache, m) := m.flatten
  cache.getLast?.map fun tx => (tx, m)

end SortedMap

/-! ## What it stands for -/

namespace SortedMap

variable {m : SortedMap} {items : Map Nat Transaction} {index : List Nat} {tx : Transaction}

def Keyed (items : Map Nat Transaction) : Prop := ∀ nonce tx, items.lookup nonce = some tx → tx.nonce = nonce

/-- The index is a heap of the nonces. -/
structure Indexed (items : Map Nat Transaction) (index : List Nat) : Prop where
  keyed : Keyed items
  perm : index.Perm items.keys
  ordered : Heap.Ordered nonceLess index

def contents (m : SortedMap) : List Transaction := sorted m.items

structure Sound (m : SortedMap) : Prop extends Indexed m.items m.index where
  cached : ∀ cache, m.cache = some cache → cache = m.contents

theorem nonceLess_weak : Heap.Weak nonceLess where
  asymm first second below := by
    simp only [nonceLess, decide_eq_true_eq, decide_eq_false_iff_not] at *
    omega
  trans first second third := by
    simp only [nonceLess, decide_eq_false_iff_not]
    omega

/-! ### The sorted values -/

theorem mem_sorted (keyed : Keyed items) : tx ∈ sorted items ↔ items.lookup tx.nonce = some tx := by
  rw [sorted, Sorted.mem_sort, Maps.mem_values]
  constructor
  · rintro ⟨nonce, found⟩
    rw [keyed nonce tx found, found]
  · exact fun found => ⟨tx.nonce, found⟩

theorem keys_values (keyed : Keyed items) : (values items).map Transaction.nonce = items.keys := by
  simp only [values, AList.keys, List.keys, List.map_map]
  refine List.map_congr_left fun entry member => ?_
  exact keyed entry.1 entry.2 (AList.mem_lookup_iff.mpr member)

theorem increasing_sorted (keyed : Keyed items) : Increasing Transaction.nonce (sorted items) :=
  Sorted.increasing_sort (by rw [keys_values keyed]; exact items.nodupKeys)

theorem sorted_eq (keyed : Keyed items) {l : List Transaction} (increasing : Increasing Transaction.nonce l)
    (same : ∀ tx, tx ∈ l ↔ items.lookup tx.nonce = some tx) : sorted items = l :=
  (increasing_sorted keyed).ext increasing fun _ => (mem_sorted keyed).trans (same _).symm

theorem length_sorted : (sorted items).length = items.keys.length := by
  simp [sorted, Sorted.sort, values, AList.keys, List.keys]

theorem nonces_sorted (keyed : Keyed items) : ((sorted items).map Transaction.nonce).Perm items.keys := by
  rw [← keys_values keyed]
  exact (List.mergeSort_perm _ _).map _

theorem Keyed.eraseAll (keyed : Keyed items) (nonces : List Nat) : Keyed (eraseAll nonces items) := by
  intro nonce tx found
  rw [Maps.lookup_eraseAll] at found
  split at found
  · cases found
  · exact keyed nonce tx found

theorem sorted_eraseAll (keyed : Keyed items) (nonces : List Nat) :
    sorted (eraseAll nonces items) = (sorted items).filter (·.nonce ∉ nonces) := by
  refine sorted_eq (keyed.eraseAll nonces) ((increasing_sorted keyed).filter _) fun tx => ?_
  rw [List.mem_filter, mem_sorted keyed, Maps.lookup_eraseAll]
  by_cases gone : tx.nonce ∈ nonces <;> simp [gone]

theorem Keyed.erase (keyed : Keyed items) (nonce : Nat) : Keyed (items.erase nonce) := keyed.eraseAll [nonce]

theorem sorted_erase (keyed : Keyed items) (nonce : Nat) :
    sorted (items.erase nonce) = (sorted items).filter (·.nonce ≠ nonce) := by
  have erased : sorted (items.erase nonce) = (sorted items).filter (·.nonce ∉ [nonce]) := sorted_eraseAll keyed [nonce]
  simpa using erased

theorem Keyed.insert (keyed : Keyed items) (tx : Transaction) : Keyed (items.insert tx.nonce tx) := by
  intro nonce other found
  rw [Maps.lookup_insert_eq] at found
  split at found
  · rename_i same
    cases found
    exact same.symm
  · exact keyed nonce other found

theorem sorted_insert (keyed : Keyed items) (tx : Transaction) :
    sorted (items.insert tx.nonce tx) = Sorted.put Transaction.nonce tx (sorted items) := by
  refine sorted_eq (keyed.insert tx) ((increasing_sorted keyed).put tx) fun other => ?_
  rw [Sorted.mem_put, mem_sorted keyed, Maps.lookup_insert_eq]
  by_cases same : other.nonce = tx.nonce
  · rw [if_pos same, Option.some.injEq, eq_comm]
    exact ⟨fun either => either.resolve_right fun ⟨_, apart⟩ => apart same, .inl⟩
  · rw [if_neg same]
    exact ⟨fun either => either.elim (fun equal => absurd (congrArg Transaction.nonce equal) same) And.left,
      fun found => .inr ⟨found, same⟩⟩

/-! ### Taking the first -/

/-- The first of the heap is the first in the order of the nonces. -/
theorem Indexed.pop (indexed : Indexed items index) {nonce : Nat} {rest : List Nat}
    (popped : Heap.pop nonceLess index = some (nonce, rest)) :
    ∃ tx, items.lookup nonce = some tx ∧ tx.nonce = nonce ∧ sorted items = tx :: sorted (items.erase nonce) ∧
      Indexed (items.erase nonce) rest := by
  cases empty : index with
  | nil =>
    have shorter := Heap.length_lt_of_pop popped
    rw [empty] at shorter
    cases shorter
  | cons first others =>
    have root : index[0]? = some first := by rw [empty]; rfl
    obtain ⟨after, popped', perm, ordered⟩ := indexed.ordered.pop nonceLess_weak root
    cases popped'.symm.trans popped
    have lowest : ∀ other ∈ index, nonce ≤ other := fun other member => by
      have := indexed.ordered.first nonceLess_weak root member
      simpa [nonceLess] using this
    have member : nonce ∈ items.keys := indexed.perm.mem_iff.mp (perm.mem_iff.mpr List.mem_cons_self)
    obtain ⟨tx, found⟩ := Maps.mem_keys_iff.mp member
    have named := indexed.keyed nonce tx found
    refine ⟨tx, found, named, ?_, indexed.keyed.erase nonce, ?_, ordered⟩
    · rw [sorted_erase indexed.keyed]
      refine sorted_eq indexed.keyed ?_ fun other => ?_
      · refine List.pairwise_cons.mpr ⟨fun other later => ?_, (increasing_sorted indexed.keyed).filter _⟩
        obtain ⟨inside, apart⟩ := List.mem_filter.mp later
        have there := Maps.mem_keys_iff.mpr ⟨other, (mem_sorted indexed.keyed).mp inside⟩
        have := lowest other.nonce (indexed.perm.mem_iff.mpr there)
        have apart : other.nonce ≠ nonce := by simpa using apart
        omega
      · rw [List.mem_cons, List.mem_filter, mem_sorted indexed.keyed]
        by_cases same : other.nonce = nonce
        · rw [same, found, Option.some.injEq]
          simp [eq_comm]
        · have unequal : other ≠ tx := fun equal => same (equal ▸ named)
          simp [same, unequal]
    · rw [AList.keys_erase]
      exact ((perm.symm.trans indexed.perm).trans (List.perm_cons_erase member)).cons_inv

theorem Indexed.empty_of_pop (indexed : Indexed items index) (popped : Heap.pop nonceLess index = none) :
    index = [] ∧ sorted items = [] := by
  cases empty : index with
  | nil =>
    refine ⟨rfl, List.length_eq_zero_iff.mp ?_⟩
    rw [length_sorted, ← indexed.perm.length_eq, empty]
    rfl
  | cons first others =>
    have root : index[0]? = some first := by rw [empty]; rfl
    obtain ⟨after, popped', -⟩ := indexed.ordered.pop nonceLess_weak root
    cases popped'.symm.trans popped

theorem Indexed.forwardLoop (indexed : Indexed items index) (threshold : Nat) :
    ∃ items' index', forwardLoop threshold items index = some ((sorted items).takeWhile (·.nonce < threshold), items', index') ∧
      Indexed items' index' ∧ sorted items' = (sorted items).dropWhile (·.nonce < threshold) := by
  fun_induction SortedMap.forwardLoop threshold items index with
  | case1 items index nonce rest popped below ih =>
    obtain ⟨tx, found, named, first, after⟩ := indexed.pop popped
    obtain ⟨items', index', looped, indexed', left⟩ := ih after
    refine ⟨items', index', ?_, indexed', ?_⟩
    · rw [found, looped, first]
      simp [named, below]
    · rw [left, first]
      simp [named, below]
  | case2 items index nonce rest popped reached =>
    obtain ⟨tx, -, named, first, -⟩ := indexed.pop popped
    refine ⟨items, index, ?_, indexed, ?_⟩ <;> simp [first, named, reached]
  | case3 items index popped =>
    obtain ⟨-, empty⟩ := indexed.empty_of_pop popped
    exact ⟨items, index, by simp [empty], indexed, by simp [empty]⟩

/-- The loop counts up to the run's end; past the last nonce of 64 bits nothing is left. -/
theorem Indexed.readyLoop (indexed : Indexed items index) {next : Nat} (low : ∀ tx ∈ sorted items, next ≤ tx.nonce) :
    ∃ items' index',
      readyLoop (next % 2 ^ 64) items index = some (Sorted.run Transaction.nonce next (sorted items), items', index') ∧
      Indexed items' index' ∧ sorted items = Sorted.run Transaction.nonce next (sorted items) ++ sorted items' := by
  generalize wrapped : next % 2 ^ 64 = here
  fun_induction SortedMap.readyLoop here items index generalizing next with
  | case1 items index nonce rest popped ih =>
    obtain ⟨tx, found, named, first, after⟩ := indexed.pop popped
    have under := tx.nonce_lt
    have least := low tx (first ▸ List.mem_cons_self)
    have equal : tx.nonce = next := by
      rw [Nat.mod_eq_of_lt (by omega)] at wrapped
      omega
    have later : ∀ other ∈ sorted (items.erase nonce), next + 1 ≤ other.nonce := fun other member => by
      have increasing := increasing_sorted indexed.keyed
      rw [first] at increasing
      have := (List.pairwise_cons.mp increasing).1 other member
      omega
    obtain ⟨items', index', looped, indexed', left⟩ := ih after later (by rw [← wrapped]; omega)
    refine ⟨items', index', ?_, indexed', ?_⟩
    · rw [found, looped, first]
      simp [Sorted.run, equal]
    · rw [first]
      simp only [Sorted.run, if_pos equal, List.cons_append]
      rw [← left]
  | case2 here items index nonce rest popped apart =>
    obtain ⟨tx, -, named, first, -⟩ := indexed.pop popped
    have under := tx.nonce_lt
    have least := low tx (first ▸ List.mem_cons_self)
    have unequal : tx.nonce ≠ next := fun equal => apart (by
      rw [Nat.mod_eq_of_lt (by omega)] at wrapped
      omega)
    refine ⟨items, index, ?_, indexed, ?_⟩ <;> simp [first, Sorted.run, unequal]
  | case3 here items index popped =>
    obtain ⟨-, empty⟩ := indexed.empty_of_pop popped
    exact ⟨items, index, by simp [empty, Sorted.run], indexed, by simp [empty, Sorted.run]⟩

/-! ### The operations -/

theorem sound_new : new.Sound where
  keyed _ _ found := by cases found
  perm := .refl []
  ordered p c child inside := absurd inside (Nat.not_lt_zero c)
  cached _ found := by cases found

theorem contents_new : new.contents = [] := by simp [contents, new, sorted, values, Sorted.sort]

namespace Sound

theorem increasing (sound : m.Sound) : Increasing Transaction.nonce m.contents := increasing_sorted sound.keyed

theorem get_iff (sound : m.Sound) {nonce : Nat} : m.get nonce = some tx ↔ tx ∈ m.contents ∧ tx.nonce = nonce := by
  rw [contents, mem_sorted sound.keyed]
  constructor
  · intro found
    have named := sound.keyed nonce tx found
    exact ⟨by rw [named]; exact found, named⟩
  · rintro ⟨found, rfl⟩
    exact found

theorem len_eq (_ : m.Sound) : m.len = m.contents.length := length_sorted.symm

theorem put (sound : m.Sound) (tx : Transaction) :
    (m.put tx).Sound ∧ (m.put tx).contents = Sorted.put Transaction.nonce tx m.contents := by
  refine ⟨⟨⟨sound.keyed.insert tx, ?_, ?_⟩, fun _ found => by cases found⟩, sorted_insert sound.keyed tx⟩
  · simp only [SortedMap.put]
    split
    · rename_i absent
      have new : tx.nonce ∉ m.items.keys := fun member => by
        obtain ⟨value, found⟩ := Maps.mem_keys_iff.mp member
        cases absent.symm.trans found
      rw [AList.keys_insert, List.erase_of_not_mem new]
      exact (Heap.push_perm _ _ _).trans (sound.perm.cons _)
    · rename_i known
      have old : tx.nonce ∈ m.items.keys := Maps.mem_keys_iff.mpr (Option.ne_none_iff_exists'.mp known)
      rw [AList.keys_insert]
      exact sound.perm.trans (List.perm_cons_erase old)
  · simp only [SortedMap.put]
    split
    · exact sound.ordered.push nonceLess_weak _
    · exact sound.ordered

theorem forward (sound : m.Sound) (threshold : Nat) :
    ∃ m', m.forward threshold = some (m.contents.takeWhile (·.nonce < threshold), m') ∧ m'.Sound ∧
      m'.contents = m.contents.dropWhile (·.nonce < threshold) := by
  obtain ⟨items, index, looped, indexed, left⟩ := sound.toIndexed.forwardLoop threshold
  refine ⟨⟨items, index, m.cache.map (·.drop (m.contents.takeWhile (·.nonce < threshold)).length)⟩,
    ?_, ⟨indexed, ?_⟩, left⟩
  · rw [SortedMap.forward, looped]
    rfl
  · intro cache found
    obtain ⟨before, cached, rfl⟩ := Option.map_eq_some_iff.mp found
    have split : (m.contents.takeWhile (·.nonce < threshold) ++ m.contents.dropWhile (·.nonce < threshold)).drop
        (m.contents.takeWhile (·.nonce < threshold)).length = m.contents.dropWhile (·.nonce < threshold) := List.drop_left
    rw [List.takeWhile_append_dropWhile] at split
    rw [sound.cached before cached, split]
    exact left.symm

theorem reheap (indexed : Keyed m.items) (ranges : Ranges) : (m.reheap ranges).Sound where
  keyed := indexed
  perm := (Heap.init_perm _ _).trans (ranges.nonces_perm _)
  ordered := Heap.ordered_init nonceLess_weak _
  cached _ found := by cases found

end Sound

/-- What `filter` removes, in the order of the visit. -/
theorem filterItems_removed (keyed : Keyed m.items) (ranges : Ranges) (p : Transaction → Bool) :
    (m.filterItems ranges p).1.Perm (m.contents.filter p) := by
  have visited : ∀ tx, tx ∈ (m.filterItems ranges p).1 ↔ tx ∈ m.contents.filter p := fun tx => by
    simp only [filterItems, List.mem_filterMap, List.mem_filter, contents, mem_sorted keyed]
    constructor
    · rintro ⟨nonce, ⟨-, chosen⟩, found⟩
      rw [found] at chosen
      exact ⟨by rw [keyed nonce tx found]; exact found, by simpa using chosen⟩
    · rintro ⟨found, chosen⟩
      have known := (ranges.nonces_perm _).mem_iff.mpr (Maps.mem_keys_iff.mpr ⟨tx, found⟩)
      exact ⟨tx.nonce, ⟨known, by simp [found, chosen]⟩, found⟩
  refine (List.perm_ext_iff_of_nodup ?_ ((increasing_sorted keyed).filter p).nodup).mpr visited
  refine List.Nodup.filterMap ?_ (((ranges.nonces_perm _).nodup_iff.mpr m.items.nodupKeys).filter _)
  intro one other tx first second
  rw [← keyed one tx first, ← keyed other tx second]

theorem filterItems_left (keyed : Keyed m.items) (ranges : Ranges) (p : Transaction → Bool) :
    Keyed (m.filterItems ranges p).2.items ∧ (m.filterItems ranges p).2.contents = m.contents.filter fun tx => ! p tx := by
  refine ⟨keyed.eraseAll _, (sorted_eraseAll keyed _).trans (List.filter_congr fun tx member => ?_)⟩
  have found := (mem_sorted keyed).mp member
  have there := (ranges.nonces_perm _).mem_iff.mpr (Maps.mem_keys_iff.mpr ⟨tx, found⟩)
  cases chosen : p tx <;> simp [List.mem_filter, there, found, chosen]

/-- A filter that removes nothing leaves the map as it is. -/
theorem filterItems_nothing {ranges : Ranges} {p : Transaction → Bool} (nothing : (m.filterItems ranges p).1 = []) :
    (m.filterItems ranges p).2 = m := by
  have visited : (ranges.nonces m.items.keys).filter (fun nonce => (m.items.lookup nonce).any p) = [] := by
    refine List.eq_nil_iff_forall_not_mem.mpr fun nonce member => ?_
    obtain ⟨tx, found, -⟩ := (Option.any_eq_true _ _).mp (List.mem_filter.mp member).2
    have removed : tx ∈ (m.filterItems ranges p).1 := List.mem_filterMap.mpr ⟨nonce, member, found⟩
    rw [nothing] at removed
    cases removed
  simp only [filterItems]
  rw [visited]
  rfl

namespace Sound

theorem filter (sound : m.Sound) (ranges : Ranges) (p : Transaction → Bool) :
    (m.filter ranges p).1.Perm (m.contents.filter p) ∧ (m.filter ranges p).2.Sound ∧
      (m.filter ranges p).2.contents = m.contents.filter fun tx => ! p tx := by
  have removed := filterItems_removed sound.keyed ranges p
  obtain ⟨keyed, left⟩ := filterItems_left sound.keyed ranges p
  refine ⟨removed, ?_, ?_⟩
  · simp only [SortedMap.filter]
    split
    · rename_i nothing
      rw [filterItems_nothing (List.isEmpty_iff.mp nothing)]
      exact sound
    · exact reheap keyed ranges
  · simp only [SortedMap.filter]
    split
    · exact left
    · exact left

theorem sorted_index (sound : m.Sound) : m.index.mergeSort (· ≤ ·) = m.contents.map Transaction.nonce := by
  have perm : (m.index.mergeSort (· ≤ ·)).Perm (m.contents.map Transaction.nonce) :=
    (List.mergeSort_perm _ _).trans (sound.perm.trans (nonces_sorted sound.keyed).symm)
  have ordered : (m.index.mergeSort (· ≤ ·)).Pairwise (· ≤ ·) := by
    exact List.sortedLE_mergeSort.pairwise
  refine perm.eq_of_pairwise (fun x y _ _ => Nat.le_antisymm) ordered ?_
  exact List.pairwise_map.mpr (sound.increasing.imp Nat.le_of_lt)

/-- Each nonce of what it holds finds its transaction. -/
theorem mapM_lookup (sound : m.Sound) {txs : List Transaction} (held : ∀ tx ∈ txs, tx ∈ m.contents) :
    (txs.map Transaction.nonce).mapM m.items.lookup = some txs := by
  induction txs with
  | nil => rfl
  | cons tx rest ih =>
    have found := (mem_sorted sound.keyed).mp (held tx List.mem_cons_self)
    rw [List.map_cons, List.mapM_cons, found, ih fun other later => held other (List.mem_cons_of_mem _ later)]
    rfl

theorem cap (sound : m.Sound) (threshold : Nat) :
    ∃ m', m.cap threshold = some ((m.contents.drop threshold).reverse, m') ∧ m'.Sound ∧
      m'.contents = m.contents.take threshold := by
  have size : m.items.keys.length = m.contents.length := length_sorted.symm
  unfold SortedMap.cap
  rw [size]
  by_cases fits : m.contents.length ≤ threshold
  · refine ⟨m, ?_, sound, (List.take_of_length_le fits).symm⟩
    simp [fits, List.drop_eq_nil_of_le fits]
  · have exceeds : ¬ ((m.contents.length : Int) ≤ threshold) := by omega
    have highest : (((m.contents.map Transaction.nonce).take m.contents.length).drop threshold).reverse =
        (m.contents.drop threshold).reverse.map Transaction.nonce := by
      rw [List.take_of_length_le (by simp), ← List.map_drop, List.map_reverse]
    have drops : ((m.contents.drop threshold).reverse.map Transaction.nonce).mapM m.items.lookup =
        some (m.contents.drop threshold).reverse :=
      sound.mapM_lookup fun tx member => List.mem_of_mem_drop (List.mem_reverse.mp member)
    have left : sorted (eraseAll ((m.contents.drop threshold).reverse.map Transaction.nonce) m.items) =
        m.contents.take threshold := by
      rw [sorted_eraseAll sound.keyed]
      have apart := sound.increasing
      rw [← List.take_append_drop threshold m.contents] at apart
      have before := (List.pairwise_append.mp apart).2.2
      show m.contents.filter _ = _
      conv_lhs => rw [← List.take_append_drop threshold m.contents, List.filter_append]
      rw [List.filter_eq_self.mpr, List.filter_eq_nil_iff.mpr, List.append_nil]
      · intro tx member
        have there : tx.nonce ∈ (m.contents.drop threshold).reverse.map Transaction.nonce :=
          List.mem_map.mpr ⟨tx, List.mem_reverse.mpr member, rfl⟩
        simpa using there
      · intro tx member
        have absent : tx.nonce ∉ (m.contents.drop threshold).reverse.map Transaction.nonce := fun there => by
          obtain ⟨other, later, same⟩ := List.mem_map.mp there
          have := before tx member other (List.mem_reverse.mp later)
          omega
        simpa using absent
    have keyed := sound.keyed.eraseAll ((m.contents.drop threshold).reverse.map Transaction.nonce)
    refine ⟨⟨eraseAll ((m.contents.drop threshold).reverse.map Transaction.nonce) m.items,
      (m.contents.map Transaction.nonce).take threshold,
      m.cache.map fun cache => cache.take (cache.length - (m.contents.drop threshold).reverse.length)⟩,
      ?_, ⟨⟨keyed, ?_, ?_⟩, ?_⟩, left⟩
    · rw [if_neg exceeds, sound.sorted_index, if_neg (by simp), Int.toNat_natCast, highest]
      dsimp only
      rw [drops]
      rfl
    · have perm := nonces_sorted keyed
      rw [left, List.map_take] at perm
      exact perm
    · refine Heap.ordered_of_pairwise (List.Pairwise.sublist (List.take_sublist _ _) (List.pairwise_map.mpr ?_))
      refine sound.increasing.imp fun below => ?_
      simp only [nonceLess, decide_eq_false_iff_not]
      omega
    · intro cache found
      obtain ⟨before, cached, rfl⟩ := Option.map_eq_some_iff.mp found
      rw [sound.cached before cached, List.length_reverse, List.length_drop]
      refine Eq.trans ?_ left.symm
      rw [show m.contents.length - (m.contents.length - threshold) = threshold by omega]

theorem remove (sound : m.Sound) (nonce : Nat) :
    (m.remove nonce).1 = m.contents.any (·.nonce = nonce) ∧ (m.remove nonce).2.Sound ∧
      (m.remove nonce).2.contents = m.contents.filter (·.nonce ≠ nonce) := by
  unfold SortedMap.remove
  split
  · rename_i absent
    have others : ∀ tx ∈ m.contents, tx.nonce ≠ nonce := fun tx member same => by
      have found := (mem_sorted sound.keyed).mp member
      rw [same, absent] at found
      cases found
    refine ⟨?_, sound, ?_⟩
    · simpa using others
    · exact (List.filter_eq_self.mpr (by simpa using others)).symm
  · rename_i known
    obtain ⟨tx, found⟩ := Option.ne_none_iff_exists'.mp known
    have member : nonce ∈ m.items.keys := Maps.mem_keys_iff.mpr ⟨tx, found⟩
    have there : nonce ∈ m.index := sound.perm.mem_iff.mpr member
    obtain ⟨i, at_i⟩ : ∃ i, m.index.findIdx? (· = nonce) = some i := by
      rw [← Option.isSome_iff_exists, List.findIdx?_isSome]
      simpa using there
    have placed : m.index[i]? = some nonce := by
      obtain ⟨inside, holds, -⟩ := List.findIdx?_eq_some_iff_getElem.mp at_i
      rw [List.getElem?_eq_getElem inside]
      simpa using holds
    obtain ⟨rest, removed, perm, ordered⟩ := sound.ordered.remove nonceLess_weak placed
    refine ⟨?_, ⟨⟨sound.keyed.erase nonce, ?_, ?_⟩, fun _ cached => by cases cached⟩, sorted_erase sound.keyed nonce⟩
    · have held : tx ∈ m.contents := by
        rw [contents, mem_sorted sound.keyed, sound.keyed nonce tx found, found]
      exact (List.any_eq_true.mpr ⟨tx, held, by simpa using sound.keyed nonce tx found⟩).symm
    · simp only [at_i, Option.bind_some, removed, Option.map_some, Option.getD_some, AList.keys_erase]
      exact ((perm.symm.trans sound.perm).trans (List.perm_cons_erase member)).cons_inv
    · simp only [at_i, Option.bind_some, removed, Option.map_some, Option.getD_some]
      exact ordered

theorem ready (sound : m.Sound) (start : Nat) :
    ∃ m', m.ready start = some (Sorted.readies Transaction.nonce start m.contents, m') ∧ m'.Sound ∧
      m.contents = Sorted.readies Transaction.nonce start m.contents ++ m'.contents := by
  unfold SortedMap.ready
  cases shape : m.contents with
  | nil =>
    have empty : m.index = [] := by
      have long := sound.perm.length_eq.trans length_sorted.symm
      rw [show sorted m.items = [] from shape] at long
      exact List.length_eq_zero_iff.mp long
    simp only [empty]
    exact ⟨m, rfl, sound, by rw [shape]; rfl⟩
  | cons tx later =>
    cases filled : m.index with
    | nil =>
      have long := sound.perm.length_eq.trans length_sorted.symm
      rw [show sorted m.items = tx :: later from shape, filled] at long
      cases long
    | cons first others =>
      have root : m.index[0]? = some first := by rw [filled]; rfl
      obtain ⟨rest, popped, -⟩ := sound.ordered.pop nonceLess_weak root
      obtain ⟨head, -, named, split, -⟩ := sound.toIndexed.pop popped
      have same : head :: sorted (m.items.erase first) = tx :: later := split.symm.trans shape
      obtain ⟨rfl, -⟩ := List.cons.inj same
      subst named
      simp only
      by_cases late : start < head.nonce
      · refine ⟨m, ?_, sound, ?_⟩
        · simp [late, Sorted.readies]
        · rw [shape]
          simp [late, Sorted.readies]
      · have increasing := sound.increasing
        have low : ∀ other ∈ sorted m.items, head.nonce ≤ other.nonce := fun other member => by
          rw [shape] at increasing
          rw [show sorted m.items = head :: later from shape] at member
          rcases List.mem_cons.mp member with rfl | after
          · exact Nat.le_refl _
          · exact Nat.le_of_lt ((List.pairwise_cons.mp increasing).1 other after)
        obtain ⟨items, index, looped, indexed, left⟩ := sound.toIndexed.readyLoop low
        rw [Nat.mod_eq_of_lt head.nonce_lt, filled, show sorted m.items = head :: later from shape] at looped
        rw [show sorted m.items = head :: later from shape] at left
        refine ⟨⟨items, index, none⟩, ?_, ⟨indexed, fun _ found => by cases found⟩, ?_⟩
        · rw [if_neg late, looped]
          simp [Sorted.readies, late]
        · rw [show Sorted.readies Transaction.nonce start (head :: later) = Sorted.run Transaction.nonce head.nonce (head :: later) by
            simp [Sorted.readies, late]]
          exact left

theorem flatten (sound : m.Sound) : m.flatten.1 = m.contents ∧ m.flatten.2.Sound ∧ m.flatten.2.contents = m.contents := by
  have same : m.cache.getD (sorted m.items) = m.contents := by
    cases cached : m.cache with
    | none => rfl
    | some cache => exact sound.cached cache cached
  refine ⟨same, ⟨sound.toIndexed, fun cache found => ?_⟩, rfl⟩
  cases found
  exact same

theorem lastElement (sound : m.Sound) : m.lastElement.map Prod.fst = m.contents.getLast? ∧
    ∀ tx m', m.lastElement = some (tx, m') → m'.Sound ∧ m'.contents = m.contents := by
  obtain ⟨same, after, kept⟩ := sound.flatten
  refine ⟨?_, fun tx m' found => ?_⟩
  · show (m.flatten.1.getLast?.map fun tx => (tx, m.flatten.2)).map Prod.fst = _
    rw [same, Option.map_map]
    exact Option.map_id' ..
  · obtain ⟨last, -, equal⟩ := Option.map_eq_some_iff.mp found
    cases equal
    exact ⟨after, kept⟩

end Sound

end SortedMap

end Snowside.TxPool
