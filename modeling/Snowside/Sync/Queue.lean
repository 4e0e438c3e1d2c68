import Mathlib.Order.Fin.Basic
import Snowside.Chain.Runs
import Snowside.Partial.Stores

/-! The queue of the storage tries that are still to be synced: markers on disk, read in
the order of their keys.
-/

set_option autoImplicit false

namespace Snowside.Queue

open Runs Stores

abbrev Byte := Fin 256

def byte (value : Nat) : Byte := Fin.ofNat 256 value

abbrev Bytes := List Byte

abbrev Database := Store Byte Bytes

/-! ## Hashes -/

def hashLength : Nat := 32

/-- `common.Hash`: an array of its length. -/
abbrev Hash := { bytes : Bytes // bytes.length = hashLength }

/-- `common.BytesToHash`: the last bytes, on the right. -/
def bytesToHash (bytes : Bytes) : Hash :=
  ⟨List.replicate (hashLength - bytes.length) 0 ++ bytes.drop (bytes.length - hashLength), by
    rw [List.length_append, List.length_replicate, List.length_drop]
    omega⟩

def zeroHash : Hash := ⟨List.replicate hashLength 0, List.length_replicate⟩

theorem bytesToHash_bytes (hash : Hash) : bytesToHash hash.val = hash := by
  obtain ⟨bytes, length⟩ := hash
  apply Subtype.ext
  simp [bytesToHash, length]

/-! ## Keys of markers -/

/-- `"sync_storage"` -/
def syncStorageTriesPrefix : Bytes := [115, 121, 110, 99, 95, 115, 116, 111, 114, 97, 103, 101]

def syncStorageTriesKeyLength : Nat := syncStorageTriesPrefix.length + 2 * hashLength

def packSyncStorageTrieKey (root account : Hash) : Bytes := syncStorageTriesPrefix ++ root.val ++ account.val

def unpackSyncStorageTrieKey (keyBytes : Bytes) : Hash × Hash :=
  let keyBytes := keyBytes.drop syncStorageTriesPrefix.length -- skip prefix
  (bytesToHash (keyBytes.take hashLength), bytesToHash (keyBytes.drop hashLength))

/-- `NewKeyLengthIterator`: the other keys are skipped. -/
def newKeyLengthIterator (keys : List Bytes) (keyLen : Nat) : List Bytes := keys.filter fun key => key.length = keyLen

def newSyncStorageTriesIterator (db : Database) (seek : Bytes) : List Bytes :=
  newKeyLengthIterator (scan db syncStorageTriesPrefix seek) syncStorageTriesKeyLength

def writeSyncStorageTrie (db : Database) (root account : Hash) : Database := db.insert (packSyncStorageTrieKey root account) [1]

/-- `ethdb.IdealBatchSize` -/
def idealBatchSize : Nat := 100 * 1024

section

variable (valueSize : List Bytes → Nat)

/-- The loop over the keys: a batch of deletions is written when it has grown past the ideal size. -/
def clearLoop (keyLen : Nat) : List Bytes → List Bytes → Database → Database
  | [], batch, db => deleteAll batch db
  | key :: rest, batch, db =>
    if key.length ≠ keyLen then clearLoop keyLen rest batch db
    else
      let batch := batch ++ [key]
      if valueSize batch > idealBatchSize then clearLoop keyLen rest [] (deleteAll batch db)
      else clearLoop keyLen rest batch db

/-- Removes all keys that begin with a prefix and match the expected length, which includes the prefix. -/
def clearPrefix (db : Database) (beginning : Bytes) (keyLen : Nat) : Database :=
  clearLoop valueSize keyLen (scan db beginning []) [] db

def clearSyncStorageTrie (db : Database) (root : Hash) : Database :=
  clearPrefix valueSize db (syncStorageTriesPrefix ++ root.val) syncStorageTriesKeyLength

end

/-! ## The queue -/

structure TrieQueue where
  db : Database
  nextStorageRoot : Bytes

/-- What getNextTrie returns. -/
structure Turn where
  root : Hash
  accounts : List Hash
  more : Bool
  deriving DecidableEq

def newTrieQueue (db : Database) : TrieQueue := ⟨db, []⟩

def TrieQueue.registerStorageTrie (queue : TrieQueue) (root account : Hash) : TrieQueue :=
  { queue with db := writeSyncStorageTrie queue.db root account }

def TrieQueue.storageTrieDone (valueSize : List Bytes → Nat) (queue : TrieQueue) (root : Hash) : TrieQueue :=
  { queue with db := clearSyncStorageTrie valueSize queue.db root }

/-- The loop of getNextTrie over the keys: the next root is the one that ends it. -/
def nextTrieLoop (root : Hash) (accounts : List Hash) : List Bytes → Hash × List Hash × Option Hash
  | [] => (root, accounts, none)
  | key :: rest =>
    let (nextRoot, nextAccount) := unpackSyncStorageTrieKey key
    -- The root of the first pass.
    let root := if root = zeroHash then nextRoot else root
    if root ≠ nextRoot then (root, accounts, some nextRoot) else nextTrieLoop root (accounts ++ [nextAccount]) rest

def TrieQueue.getNextTrie (queue : TrieQueue) : Turn × TrieQueue :=
  match nextTrieLoop zeroHash [] (newSyncStorageTriesIterator queue.db queue.nextStorageRoot) with
  | (root, accounts, none) => (⟨root, accounts, false⟩, queue)
  | (root, accounts, some nextRoot) => (⟨root, accounts, true⟩, { queue with nextStorageRoot := nextRoot.val })

/-! ## Its use -/

inductive QueueStep where
  | getNextTrie
  | storageTrieDone (root : Hash)
  deriving DecidableEq

/-- The queue with what it has returned, and the roots that are done. -/
structure QueueRun where
  queue : TrieQueue
  returned : List Turn
  done : List Hash

def QueueRun.step (valueSize : List Bytes → Nat) (state : QueueRun) : QueueStep → QueueRun
  | .getNextTrie => { state with queue := state.queue.getNextTrie.2, returned := state.returned ++ [state.queue.getNextTrie.1] }
  | .storageTrieDone root => { state with queue := state.queue.storageTrieDone valueSize root, done := root :: state.done }

/-- Calls are made until there are no more tries, and a trie is done only when it has been returned. -/
def Allowed (state : QueueRun) : QueueStep → Prop
  | .getNextTrie => ∀ turn ∈ state.returned, turn.more = true
  | .storageTrieDone root => root ∈ state.returned.map Turn.root

instance (state : QueueRun) : (step : QueueStep) → Decidable (Allowed state step)
  | .getNextTrie => inferInstanceAs (Decidable (∀ turn ∈ state.returned, turn.more = true))
  | .storageTrieDone root => inferInstanceAs (Decidable (root ∈ state.returned.map Turn.root))

/-- The queue after the main trie's leaves have registered their pairs of roots and accounts. -/
def registerAll (queue : TrieQueue) (pairs : List (Hash × Hash)) : TrieQueue :=
  pairs.foldl (fun queue pair => queue.registerStorageTrie pair.1 pair.2) queue

def queueSystem (valueSize : List Bytes → Nat) (queue : TrieQueue) : System QueueRun QueueStep where
  initial state := state = ⟨queue, [], []⟩
  step state action after := after = state.step valueSize action

/-- There is a marker of the root and the account. -/
def Marked (db : Database) (root account : Hash) : Prop := packSyncStorageTrieKey root account ∈ db

/-! ## Markers -/

theorem unpackSyncStorageTrieKey_pack (root account : Hash) :
    unpackSyncStorageTrieKey (packSyncStorageTrieKey root account) = (root, account) := by
  have skipped : (packSyncStorageTrieKey root account).drop syncStorageTriesPrefix.length = root.val ++ account.val := by
    rw [packSyncStorageTrieKey, List.append_assoc, List.drop_left]
  simp only [unpackSyncStorageTrieKey, skipped]
  rw [List.take_left' root.property, List.drop_left' root.property, bytesToHash_bytes, bytesToHash_bytes]

theorem packSyncStorageTrieKey_inj {root other account another : Hash} :
    packSyncStorageTrieKey root account = packSyncStorageTrieKey other another ↔ root = other ∧ account = another := by
  constructor
  · intro same
    have unpacked := congrArg unpackSyncStorageTrieKey same
    rw [unpackSyncStorageTrieKey_pack, unpackSyncStorageTrieKey_pack] at unpacked
    exact Prod.mk.inj unpacked
  · rintro ⟨rfl, rfl⟩
    rfl

theorem packSyncStorageTrieKey_lt {root other account another : Hash} :
    packSyncStorageTrieKey root account < packSyncStorageTrieKey other another ↔ root < other ∨ root = other ∧ account < another := by
  have lengths : root.val.length = other.val.length := root.property.trans other.property.symm
  rw [packSyncStorageTrieKey, packSyncStorageTrieKey, List.append_assoc, List.append_assoc, append_lt_append_iff rfl,
    append_lt_append_iff lengths]
  simp [Subtype.ext_iff]

/-- A key of the right length that begins with the prefix and a root is a marker of the root. -/
theorem exists_account {root : Hash} {key : Bytes} (begins : syncStorageTriesPrefix ++ root.val <+: key)
    (length : key.length = syncStorageTriesKeyLength) : ∃ account, key = packSyncStorageTrieKey root account := by
  obtain ⟨rest, rfl⟩ := begins
  have long : rest.length = hashLength := by
    have := root.property
    simp only [List.length_append, syncStorageTriesKeyLength] at length
    omega
  exact ⟨⟨rest, long⟩, rfl⟩

theorem exists_marker {key : Bytes} (begins : syncStorageTriesPrefix <+: key) (length : key.length = syncStorageTriesKeyLength) :
    ∃ root account, key = packSyncStorageTrieKey root account := by
  obtain ⟨rest, rfl⟩ := begins
  have long : rest.length = hashLength + hashLength := by
    simp only [List.length_append, syncStorageTriesKeyLength] at length
    omega
  have root_length : (rest.take hashLength).length = hashLength := by
    rw [List.length_take]
    omega
  refine ⟨⟨rest.take hashLength, root_length⟩, exists_account ?_ ?_⟩
  · rw [List.prefix_append_right_inj]
    exact List.take_prefix _ _
  · rw [List.length_append, long]
    rfl

@[simp] theorem length_packSyncStorageTrieKey (root account : Hash) :
    (packSyncStorageTrieKey root account).length = syncStorageTriesKeyLength := by
  simp only [packSyncStorageTrieKey, List.length_append, root.property, account.property, syncStorageTriesKeyLength]
  omega

/-- Where an iteration may begin: at the first marker, or at those of a root. -/
def Seekable (seek : Bytes) : Prop := seek = [] ∨ seek.length = hashLength

theorem mem_newSyncStorageTriesIterator {db : Database} {seek key : Bytes} (seekable : Seekable seek) :
    key ∈ newSyncStorageTriesIterator db seek ↔
      ∃ root account, key = packSyncStorageTrieKey root account ∧ Marked db root account ∧ seek ≤ root.val := by
  have reached (root account : Hash) : syncStorageTriesPrefix ++ seek ≤ packSyncStorageTrieKey root account ↔ seek ≤ root.val := by
    rw [packSyncStorageTrieKey, List.append_assoc, append_le_append_left_iff]
    rcases seekable with rfl | length
    · exact iff_of_true (nil_le _) (nil_le _)
    · exact le_append_iff (length.trans root.property.symm) account.val
  rw [newSyncStorageTriesIterator, newKeyLengthIterator, List.mem_filter, mem_scan, decide_eq_true_iff]
  constructor
  · rintro ⟨⟨stored, begins, from_seek⟩, length⟩
    obtain ⟨root, account, rfl⟩ := exists_marker begins length
    exact ⟨root, account, rfl, stored, (reached root account).mp from_seek⟩
  · rintro ⟨root, account, rfl, marked, from_seek⟩
    refine ⟨⟨marked, ?_, (reached root account).mpr from_seek⟩, length_packSyncStorageTrieKey root account⟩
    rw [packSyncStorageTrieKey, List.append_assoc]
    exact List.prefix_append _ _

/-! ## Deleted markers -/

theorem lookup_clearLoop (valueSize : List Bytes → Nat) (keyLen : Nat) (keys batch : List Bytes) (db : Database) (key : Bytes) :
    (clearLoop valueSize keyLen keys batch db).lookup key =
      if key ∈ batch ∨ key ∈ keys ∧ key.length = keyLen then none else db.lookup key := by
  induction keys generalizing batch db with
  | nil => simp [clearLoop, lookup_deleteAll]
  | cons head rest ih =>
    unfold clearLoop
    split
    · rename_i skipped
      rw [ih]
      congr 1
      simp only [List.mem_cons, eq_iff_iff]
      grind
    · rename_i matching
      dsimp only
      split
      · rw [ih, lookup_deleteAll]
        grind
      · rw [ih]
        congr 1
        simp only [List.mem_cons, List.mem_append, eq_iff_iff]
        grind

/-- Exactly the markers of the root go. -/
theorem lookup_clearSyncStorageTrie (valueSize : List Bytes → Nat) (db : Database) (root : Hash) (key : Bytes) :
    ((∃ account, key = packSyncStorageTrieKey root account) → (clearSyncStorageTrie valueSize db root).lookup key = none) ∧
      ((∀ account, key ≠ packSyncStorageTrieKey root account) →
        (clearSyncStorageTrie valueSize db root).lookup key = db.lookup key) := by
  rw [clearSyncStorageTrie, clearPrefix, lookup_clearLoop]
  constructor
  · rintro ⟨account, rfl⟩
    split
    · rfl
    · rename_i kept
      refine AList.lookup_eq_none.mpr fun stored => kept (.inr ⟨mem_scan.mpr ⟨stored, List.prefix_append _ _, ?_⟩, ?_⟩)
      · rw [List.append_nil]
        exact (le_append_iff rfl account.val).mpr le_rfl
      · exact length_packSyncStorageTrieKey root account
  · intro other
    rw [if_neg]
    rintro (nowhere | ⟨scanned, length⟩)
    · cases nowhere
    · obtain ⟨account, same⟩ := exists_account (mem_scan.mp scanned).2.1 length
      exact other account same

/-! ## The next trie -/

/-- The key of a pair of a root and an account. -/
def keyOf (pair : Hash × Hash) : Bytes := packSyncStorageTrieKey pair.1 pair.2

/-- The order of the keys of two pairs. -/
def Before (first second : Hash × Hash) : Prop := first.1 < second.1 ∨ first.1 = second.1 ∧ first.2 < second.2

theorem Before.root_le {first second : Hash × Hash} (before : Before first second) : first.1 ≤ second.1 :=
  before.elim le_of_lt fun level => level.1.le

/-- The keys of an iteration are those of pairs in order. -/
theorem exists_pairs (db : Database) {seek : Bytes} (seekable : Seekable seek) :
    ∃ pairs : List (Hash × Hash), newSyncStorageTriesIterator db seek = pairs.map keyOf ∧ pairs.Pairwise Before ∧
      ∀ pair, pair ∈ pairs ↔ Marked db pair.1 pair.2 ∧ seek ≤ pair.1.val := by
  have keys_back : ∀ key ∈ newSyncStorageTriesIterator db seek, keyOf (unpackSyncStorageTrieKey key) = key := by
    intro key member
    obtain ⟨root, account, rfl, -⟩ := (mem_newSyncStorageTriesIterator seekable).mp member
    rw [unpackSyncStorageTrieKey_pack, keyOf]
  refine ⟨(newSyncStorageTriesIterator db seek).map unpackSyncStorageTrieKey, ?_, ?_, fun pair => ?_⟩
  · rw [List.map_map]
    exact ((List.map_congr_left keys_back).trans (List.map_id _)).symm
  · have increasing : (newSyncStorageTriesIterator db seek).Pairwise (· < ·) := scan_increasing.filter _
    refine List.pairwise_map.mpr (increasing.imp_of_mem fun first second below => ?_)
    rw [← keys_back _ first, ← keys_back _ second] at below
    exact packSyncStorageTrieKey_lt.mp below
  · rw [List.mem_map]
    constructor
    · rintro ⟨key, member, rfl⟩
      obtain ⟨root, account, rfl, marked, from_seek⟩ := (mem_newSyncStorageTriesIterator seekable).mp member
      rw [unpackSyncStorageTrieKey_pack]
      exact ⟨marked, from_seek⟩
    · rintro ⟨marked, from_seek⟩
      exact ⟨keyOf pair, (mem_newSyncStorageTriesIterator seekable).mpr ⟨pair.1, pair.2, rfl, marked, from_seek⟩,
        unpackSyncStorageTrieKey_pack pair.1 pair.2⟩

/-- The accounts are those of the first root, and the next root is the first other one. -/
theorem nextTrieLoop_pairs {root : Hash} {pairs : List (Hash × Hash)} (real : root ≠ zeroHash) (increasing : pairs.Pairwise Before)
    (from_root : ∀ pair ∈ pairs, root ≤ pair.1) (accounts : List Hash) :
    nextTrieLoop root accounts (pairs.map keyOf) =
      (root, accounts ++ (pairs.filter fun pair => pair.1 = root).map Prod.snd,
        (pairs.find? fun pair => pair.1 ≠ root).map Prod.fst) := by
  induction pairs generalizing accounts with
  | nil => simp [nextTrieLoop]
  | cons head rest ih =>
    obtain ⟨after_head, increasing⟩ := List.pairwise_cons.mp increasing
    rw [List.map_cons, nextTrieLoop, keyOf, unpackSyncStorageTrieKey_pack]
    simp only [if_neg real]
    split
    · rename_i other
      have beyond : ∀ pair ∈ head :: rest, pair.1 ≠ root := by
        intro pair member same
        rcases List.mem_cons.mp member with rfl | later
        · exact other same.symm
        · have past : root < head.1 := lt_of_le_of_ne (from_root head List.mem_cons_self) other
          exact absurd (past.trans_le (after_head pair later).root_le) (same ▸ lt_irrefl root)
      rw [List.filter_eq_nil_iff.mpr fun pair member => by simpa using beyond pair member]
      simp [Ne.symm other]
    · rename_i same
      have same : head.1 = root := (not_not.mp same).symm
      rw [ih increasing fun pair member => from_root pair (List.mem_cons_of_mem _ member)]
      simp [same]

/-- The accounts of one root are in order. -/
theorem accounts_pairwise {pairs : List (Hash × Hash)} (increasing : pairs.Pairwise Before) (root : Hash) :
    ((pairs.filter fun pair => pair.1 = root).map Prod.snd).Pairwise (· < ·) := by
  refine List.pairwise_map.mpr ((increasing.filter _).imp_of_mem fun {first second} former latter before => ?_)
  have level : first.1 = second.1 :=
    (of_decide_eq_true (List.mem_filter.mp former).2).trans (of_decide_eq_true (List.mem_filter.mp latter).2).symm
  exact before.elim (fun higher => absurd level higher.ne) And.right

/-- The first pair with another root has the least root past the first one. -/
theorem next_root_le {pairs : List (Hash × Hash)} {root : Hash} {next : Hash × Hash} (increasing : pairs.Pairwise Before)
    (found : (pairs.find? fun pair => pair.1 ≠ root) = some next) {pair : Hash × Hash} (member : pair ∈ pairs)
    (past : root < pair.1) : next.1 ≤ pair.1 := by
  obtain ⟨-, former, latter, split, all_same⟩ := List.find?_eq_some_iff_append.mp found
  rw [split] at increasing member
  rcases List.mem_append.mp member with earlier | onwards
  · have same := all_same _ earlier
    exact absurd (by simpa using same) past.ne'
  · rcases List.mem_cons.mp onwards with rfl | later
    · exact le_rfl
    · exact ((List.pairwise_cons.mp (List.pairwise_append.mp increasing).2.1).1 _ later).root_le

/-- What a call returns: the least root from the seek on with all its accounts; the next one is where the queue goes on. -/
structure Turn.Taken (queue : TrieQueue) (turn : Turn) (nextStorageRoot : Bytes) : Prop where
  accounts_increasing : turn.accounts.Pairwise (· < ·)
  mem_accounts : ∀ account, account ∈ turn.accounts ↔ Marked queue.db turn.root account
  accounts_some : turn.accounts ≠ []
  from_seek : queue.nextStorageRoot ≤ turn.root.val
  least : ∀ root account, Marked queue.db root account → queue.nextStorageRoot ≤ root.val → turn.root ≤ root
  more : turn.more = true → ∃ next : Hash, nextStorageRoot = next.val ∧ turn.root < next ∧
    (∃ account, Marked queue.db next account) ∧
    ∀ root account, Marked queue.db root account → turn.root < root → next ≤ root
  ended : turn.more = false → nextStorageRoot = queue.nextStorageRoot ∧
    ∀ root account, Marked queue.db root account → queue.nextStorageRoot ≤ root.val → root = turn.root

/-- A call on a queue with a marker from the seek on, when no root is zero. -/
theorem TrieQueue.getNextTrie_taken {queue : TrieQueue} (seekable : Seekable queue.nextStorageRoot)
    (nonzero : ∀ root account, Marked queue.db root account → root ≠ zeroHash)
    (some_left : ∃ root account, Marked queue.db root account ∧ queue.nextStorageRoot ≤ root.val) :
    queue.getNextTrie.2.db = queue.db ∧ queue.getNextTrie.1.Taken queue queue.getNextTrie.2.nextStorageRoot := by
  obtain ⟨pairs, iterated, increasing, mem_pairs⟩ := exists_pairs queue.db seekable
  cases pairs with
  | nil =>
    obtain ⟨root, account, marked, from_seek⟩ := some_left
    cases (mem_pairs (root, account)).mpr ⟨marked, from_seek⟩
  | cons head rest =>
    obtain ⟨head_marked, head_from⟩ := (mem_pairs head).mp List.mem_cons_self
    have real : head.1 ≠ zeroHash := nonzero _ _ head_marked
    have from_head : ∀ pair ∈ head :: rest, head.1 ≤ pair.1 := by
      intro pair member
      rcases List.mem_cons.mp member with rfl | later
      · exact le_rfl
      · exact ((List.pairwise_cons.mp increasing).1 pair later).root_le
    -- Without a root the first key sets it.
    have first_pass : nextTrieLoop zeroHash [] ((head :: rest).map keyOf) = nextTrieLoop head.1 [] ((head :: rest).map keyOf) := by
      rw [List.map_cons, nextTrieLoop, nextTrieLoop, keyOf, unpackSyncStorageTrieKey_pack]
      simp [real]
    rw [nextTrieLoop_pairs real increasing from_head [], List.nil_append] at first_pass
    have mem_accounts (account : Hash) :
        account ∈ ((head :: rest).filter fun pair => pair.1 = head.1).map Prod.snd ↔ Marked queue.db head.1 account := by
      rw [List.mem_map]
      constructor
      · rintro ⟨pair, member, rfl⟩
        obtain ⟨listed, same⟩ := List.mem_filter.mp member
        rw [← of_decide_eq_true same]
        exact ((mem_pairs pair).mp listed).1
      · intro marked
        refine ⟨(head.1, account), List.mem_filter.mpr ⟨(mem_pairs _).mpr ⟨marked, head_from⟩, ?_⟩, rfl⟩
        exact decide_eq_true rfl
    have accounts_some : ((head :: rest).filter fun pair => pair.1 = head.1).map Prod.snd ≠ [] :=
      List.ne_nil_of_mem ((mem_accounts head.2).mpr head_marked)
    have least (root account : Hash) (marked : Marked queue.db root account) (from_seek : queue.nextStorageRoot ≤ root.val) :
        head.1 ≤ root := from_head (root, account) ((mem_pairs _).mpr ⟨marked, from_seek⟩)
    unfold TrieQueue.getNextTrie
    rw [iterated, first_pass]
    cases found : (head :: rest).find? fun pair => pair.1 ≠ head.1 with
    | none =>
      refine ⟨rfl, accounts_pairwise increasing head.1, mem_accounts, accounts_some, head_from, least, fun more => (nomatch more), ?_⟩
      refine fun _ => ⟨rfl, fun root account marked from_seek => ?_⟩
      have same := List.find?_eq_none.mp found (root, account) ((mem_pairs _).mpr ⟨marked, from_seek⟩)
      simpa using same
    | some next =>
      refine ⟨rfl, accounts_pairwise increasing head.1, mem_accounts, accounts_some, head_from, least, ?_,
        fun ended => (nomatch ended)⟩
      have listed : next ∈ head :: rest := List.mem_of_find?_eq_some found
      have other : next.1 ≠ head.1 := by simpa using List.find?_some found
      refine fun _ => ⟨next.1, rfl, lt_of_le_of_ne (from_head next listed) other.symm, ⟨next.2, ((mem_pairs next).mp listed).1⟩, ?_⟩
      intro root account marked past
      exact next_root_le increasing found ((mem_pairs (root, account)).mpr ⟨marked, head_from.trans past.le⟩) past

/-! ## Runs -/

/-- What holds after every step, for a queue that starts with the markers of a database. -/
structure QueueRun.Sound (start : Database) (state : QueueRun) : Prop where
  cleared : ∀ root ∈ state.done, ∀ account, ¬ Marked state.queue.db root account
  kept : ∀ key, (∀ root ∈ state.done, ∀ account, key ≠ packSyncStorageTrieKey root account) →
    state.queue.db.lookup key = start.lookup key
  done_returned : ∀ root ∈ state.done, root ∈ state.returned.map Turn.root
  increasing : (state.returned.map Turn.root).Pairwise (· < ·)
  accounts : ∀ turn ∈ state.returned, turn.accounts.Pairwise (· < ·) ∧ turn.accounts ≠ [] ∧
    ∀ account, account ∈ turn.accounts ↔ Marked start turn.root account
  more : ∀ turn ∈ state.returned.dropLast, turn.more = true
  seekable : Seekable state.queue.nextStorageRoot
  onwards : (∀ turn ∈ state.returned, turn.more = true) →
    (∃ root account, Marked start root account ∧ state.queue.nextStorageRoot ≤ root.val) ∧
    ∀ root account, Marked start root account → (root ∈ state.returned.map Turn.root ↔ ¬ state.queue.nextStorageRoot ≤ root.val)
  ended : (∃ turn ∈ state.returned, turn.more = false) →
    ∀ root account, Marked start root account → root ∈ state.returned.map Turn.root

variable {valueSize : List Bytes → Nat} {start : Database} {state : QueueRun}

namespace QueueRun.Sound

/-- A marker is there until its root is done. -/
theorem marked_iff (sound : state.Sound start) {root : Hash} (account : Hash) (waits : root ∉ state.done) :
    Marked state.queue.db root account ↔ Marked start root account := by
  have kept : state.queue.db.lookup (packSyncStorageTrieKey root account) = start.lookup (packSyncStorageTrieKey root account) := by
    refine sound.kept _ fun other finished another same => waits ?_
    rw [(packSyncStorageTrieKey_inj.mp same).1]
    exact finished
  rw [Marked, Marked, ← AList.lookup_isSome, ← AList.lookup_isSome, kept]

theorem marked_start (sound : state.Sound start) {root account : Hash} (marked : Marked state.queue.db root account) :
    Marked start root account :=
  (sound.marked_iff account fun finished => sound.cleared root finished account marked).mp marked

theorem storageTrieDone (sound : state.Sound start) {root : Hash} (returned : root ∈ state.returned.map Turn.root) :
    (state.step valueSize (.storageTrieDone root)).Sound start where
  cleared := by
    intro other finished account
    have lookups := lookup_clearSyncStorageTrie valueSize state.queue.db root (packSyncStorageTrieKey other account)
    refine AList.lookup_eq_none.mp ?_
    rcases eq_or_ne other root with rfl | differs
    · exact lookups.1 ⟨account, rfl⟩
    · refine (lookups.2 fun another same => differs (packSyncStorageTrieKey_inj.mp same).1).trans ?_
      exact AList.lookup_eq_none.mpr (sound.cleared other ((List.mem_cons.mp finished).resolve_left differs) account)
  kept := by
    intro key others
    refine ((lookup_clearSyncStorageTrie valueSize state.queue.db root key).2 (others root List.mem_cons_self)).trans ?_
    exact sound.kept key fun other finished => others other (List.mem_cons_of_mem _ finished)
  done_returned := by
    intro other finished
    rcases List.mem_cons.mp finished with rfl | earlier
    · exact returned
    · exact sound.done_returned other earlier
  increasing := sound.increasing
  accounts := sound.accounts
  more := sound.more
  seekable := sound.seekable
  onwards := sound.onwards
  ended := sound.ended

theorem getNextTrie (sound : state.Sound start) (nonzero : ∀ root account, Marked start root account → root ≠ zeroHash)
    (goes_on : ∀ turn ∈ state.returned, turn.more = true) : (state.step valueSize .getNextTrie).Sound start := by
  obtain ⟨⟨first, other, first_marked, first_from⟩, returned_iff⟩ := sound.onwards goes_on
  have marked_iff {root : Hash} (account : Hash) (from_seek : state.queue.nextStorageRoot ≤ root.val) :
      Marked state.queue.db root account ↔ Marked start root account := by
    constructor
    · exact sound.marked_start
    · intro marked
      refine (sound.marked_iff account fun finished => ?_).mpr marked
      exact (returned_iff root account marked).mp (sound.done_returned root finished) from_seek
  obtain ⟨same_db, taken⟩ := TrieQueue.getNextTrie_taken sound.seekable
    (fun root account marked => nonzero root account (sound.marked_start marked))
    ⟨first, other, (marked_iff other first_from).mpr first_marked, first_from⟩
  have accounts_start (account : Hash) :
      account ∈ state.queue.getNextTrie.1.accounts ↔ Marked start state.queue.getNextTrie.1.root account :=
    (taken.mem_accounts account).trans (marked_iff account taken.from_seek)
  -- What was returned is before the seek.
  have below : ∀ root ∈ state.returned.map Turn.root, ¬ state.queue.nextStorageRoot ≤ root.val := by
    intro root member
    obtain ⟨turn, listed, rfl⟩ := List.mem_map.mp member
    obtain ⟨-, some_account, exactly⟩ := sound.accounts turn listed
    obtain ⟨account, mentioned⟩ := List.exists_mem_of_ne_nil _ some_account
    exact (returned_iff turn.root account ((exactly account).mp mentioned)).mp member
  have mem_roots (root : Hash) : root ∈ (state.returned ++ [state.queue.getNextTrie.1]).map Turn.root ↔
      root ∈ state.returned.map Turn.root ∨ root = state.queue.getNextTrie.1.root := by
    rw [List.map_append, List.mem_append, List.map_singleton, List.mem_singleton]
  exact {
    cleared := fun root finished account marked => sound.cleared root finished account (same_db ▸ marked)
    kept := fun key others => (congrArg (AList.lookup key) same_db).trans (sound.kept key others)
    done_returned := fun root finished => (mem_roots root).mpr (.inl (sound.done_returned root finished))
    increasing := by
      refine (List.map_append ▸ List.pairwise_append.mpr ⟨sound.increasing, List.pairwise_singleton _ _, ?_⟩)
      intro root member last listed
      rw [List.mem_singleton.mp listed]
      exact (not_le.mp (below root member)).trans_le taken.from_seek
    accounts := by
      intro turn member
      rcases List.mem_append.mp member with earlier | latest
      · exact sound.accounts turn earlier
      · rw [List.mem_singleton.mp latest]
        exact ⟨taken.accounts_increasing, taken.accounts_some, accounts_start⟩
    more := by
      intro turn member
      rw [QueueRun.step, List.dropLast_concat] at member
      exact goes_on turn member
    seekable := by
      cases last : state.queue.getNextTrie.1.more with
      | false => exact (taken.ended last).1.symm ▸ sound.seekable
      | true =>
        obtain ⟨next, seek, -⟩ := taken.more last
        exact .inr ((congrArg List.length seek).trans next.property)
    onwards := by
      intro all_more
      obtain ⟨next, seek, past, ⟨account, next_marked⟩, next_least⟩ :=
        taken.more (all_more _ (List.mem_append_right _ (List.mem_singleton_self _)))
      have next_from : state.queue.nextStorageRoot ≤ next.val := taken.from_seek.trans past.le
      simp only [QueueRun.step, seek, mem_roots]
      refine ⟨⟨next, account, (marked_iff account next_from).mp next_marked, le_rfl⟩, fun root account marked => ?_⟩
      rw [returned_iff root account marked]
      constructor
      · rintro (earlier | rfl) from_next
        · exact earlier (next_from.trans from_next)
        · exact past.not_ge from_next
      · -- A root from the seek on that is not the one returned is not before the next one.
        intro before_next
        by_contra neither
        obtain ⟨from_seek, differs⟩ := not_or.mp neither
        have from_seek := not_not.mp from_seek
        have marked := (marked_iff account from_seek).mpr marked
        have beyond := lt_of_le_of_ne (taken.least root account marked from_seek) (Ne.symm differs)
        exact before_next (next_least root account marked beyond)
    ended := by
      rintro ⟨turn, member, last⟩ root account marked
      refine (mem_roots root).mpr ?_
      rcases List.mem_append.mp member with earlier | latest
      · exact absurd (goes_on turn earlier) (last ▸ Bool.false_ne_true)
      · rw [List.mem_singleton.mp latest] at last
        by_cases from_seek : state.queue.nextStorageRoot ≤ root.val
        · exact .inr ((taken.ended last).2 root account ((marked_iff account from_seek).mpr marked) from_seek)
        · exact .inl ((returned_iff root account marked).mpr from_seek) }

/-- The call after which there is no more is the one that returns the last root. -/
theorem last_iff (sound : state.Sound start) {last : Turn} (latest : last ∈ state.returned.getLast?) :
    last.more = false ↔ ∀ root account, Marked start root account → root ∈ state.returned.map Turn.root := by
  have split : state.returned.dropLast ++ [last] = state.returned := List.dropLast_append_getLast? last latest
  constructor
  · exact fun no_more => sound.ended ⟨last, List.mem_of_getLast? latest, no_more⟩
  · intro all_returned
    by_contra more
    obtain ⟨⟨root, account, marked, from_seek⟩, returned_iff⟩ := sound.onwards fun turn member => by
      rcases List.mem_append.mp (split ▸ member) with earlier | here
      · exact sound.more turn earlier
      · rw [List.mem_singleton.mp here]
        exact Bool.eq_true_of_not_eq_false more
    exact (returned_iff root account marked).mp (all_returned root account marked) from_seek

/-- There are no more calls than markers. -/
theorem length_returned_le (sound : state.Sound start) : state.returned.length ≤ start.keys.length := by
  let marker (turn : Turn) : Bytes := packSyncStorageTrieKey turn.root (turn.accounts.headD zeroHash)
  have distinct : (state.returned.map marker).Nodup := by
    refine List.pairwise_map.mpr ((List.pairwise_map.mp sound.increasing).imp fun below same => ?_)
    exact below.ne (packSyncStorageTrieKey_inj.mp same).1
  have stored : state.returned.map marker ⊆ start.keys := by
    intro key member
    obtain ⟨turn, listed, rfl⟩ := List.mem_map.mp member
    obtain ⟨-, some_account, exactly⟩ := sound.accounts turn listed
    refine (exactly _).mp ?_
    obtain ⟨account, rest, split⟩ := List.exists_cons_of_ne_nil some_account
    rw [split]
    exact List.mem_cons_self
  exact (List.length_map marker).symm.trans_le (List.subperm_of_subset distinct stored).length_le

end QueueRun.Sound

theorem sound_of_reach {queue : TrieQueue} (fresh : queue.nextStorageRoot = [])
    (nonzero : ∀ root account, Marked queue.db root account → root ≠ zeroHash)
    (some_trie : ∃ root account, Marked queue.db root account) (reach : Reach (queueSystem valueSize queue) Allowed state) :
    state.Sound queue.db := by
  refine reach.invariant (QueueRun.Sound queue.db) ?_ ?_
  · rintro _ rfl
    obtain ⟨root, account, marked⟩ := some_trie
    have from_start (root : Hash) : queue.nextStorageRoot ≤ root.val := fresh ▸ nil_le root.val
    exact {
      cleared := fun root finished => nomatch finished
      kept := fun _ _ => rfl
      done_returned := fun root finished => nomatch finished
      increasing := List.Pairwise.nil
      accounts := fun turn member => nomatch member
      more := fun turn member => nomatch member
      seekable := .inl fresh
      onwards := fun _ => ⟨⟨root, account, marked, from_start root⟩, fun root _ _ =>
        ⟨fun member => (nomatch member), fun before => absurd (from_start root) before⟩⟩
      ended := fun ⟨_, member, _⟩ => nomatch member }
  · rintro state action _ sound allowed rfl
    cases action with
    | getNextTrie => exact sound.getNextTrie nonzero allowed
    | storageTrieDone root => exact sound.storageTrieDone allowed

/-! ## The registered pairs -/

/-- Registered, now or by a sync that was stopped. -/
def Registered (db : Database) (pairs : List (Hash × Hash)) (root account : Hash) : Prop :=
  (root, account) ∈ pairs ∨ Marked db root account

theorem marked_registerAll {queue : TrieQueue} {pairs : List (Hash × Hash)} {root account : Hash} :
    Marked (registerAll queue pairs).db root account ↔ Registered queue.db pairs root account := by
  induction pairs generalizing queue with
  | nil => simp [registerAll, Registered]
  | cons pair rest ih =>
    have registered : Marked (queue.registerStorageTrie pair.1 pair.2).db root account ↔
        (root, account) = pair ∨ Marked queue.db root account := by
      rw [Marked, TrieQueue.registerStorageTrie, writeSyncStorageTrie, AList.mem_insert, packSyncStorageTrieKey_inj, Prod.ext_iff]
      rfl
    have onwards : registerAll queue (pair :: rest) = registerAll (queue.registerStorageTrie pair.1 pair.2) rest := rfl
    rw [onwards, ih, Registered, Registered, registered, List.mem_cons]
    tauto

theorem nextStorageRoot_registerAll (queue : TrieQueue) (pairs : List (Hash × Hash)) :
    (registerAll queue pairs).nextStorageRoot = queue.nextStorageRoot := by
  induction pairs generalizing queue with
  | nil => rfl
  | cons pair rest ih => exact ih (queue.registerStorageTrie pair.1 pair.2)

/-- Every registered root is returned once, in order, with its accounts; only the call for the last one says that there is
no more. Exactly the markers of the roots that are done are gone. -/
theorem storage_tries_returned_once (valueSize : List Bytes → Nat) (db : Database) (registered : List (Hash × Hash))
    (nonzero : ∀ root account, Registered db registered root account → root ≠ zeroHash)
    (some_trie : ∃ root account, Registered db registered root account) (state : QueueRun)
    (reach : Reach (queueSystem valueSize (registerAll (newTrieQueue db) registered)) Allowed state) :
    (state.returned.map Turn.root).Pairwise (· < ·) ∧
    (∀ turn ∈ state.returned, turn.accounts.Pairwise (· < ·) ∧ turn.accounts ≠ [] ∧
      ∀ account, account ∈ turn.accounts ↔ Registered db registered turn.root account) ∧
    (∀ turn ∈ state.returned.dropLast, turn.more = true) ∧
    (∀ last ∈ state.returned.getLast?, last.more = false ↔
      ∀ root account, Registered db registered root account → root ∈ state.returned.map Turn.root) ∧
    state.returned.length ≤ (registerAll (newTrieQueue db) registered).db.keys.length ∧
    (∀ root ∈ state.done, ∀ account, ¬ Marked state.queue.db root account) ∧
    ∀ key, (∀ root ∈ state.done, ∀ account, key ≠ packSyncStorageTrieKey root account) →
      state.queue.db.lookup key = (registerAll (newTrieQueue db) registered).db.lookup key := by
  have marked_iff (root account : Hash) :
      Marked (registerAll (newTrieQueue db) registered).db root account ↔ Registered db registered root account :=
    marked_registerAll
  simp only [← marked_iff] at nonzero some_trie ⊢
  have sound := sound_of_reach (nextStorageRoot_registerAll (newTrieQueue db) registered) nonzero some_trie reach
  exact ⟨sound.increasing, sound.accounts, sound.more, fun last => sound.last_iff, sound.length_returned_le, sound.cleared, sound.kept⟩

/-! ## A sample -/

def sampleHash (last : Byte) : Hash := bytesToHash [last]

def syncRootKey : Bytes := [115, 121, 110, 99, 95, 114, 111, 111, 116]

def sampleDB : Database := (∅ : Database).insert syncRootKey (sampleHash 9).val

def samplePairs : List (Hash × Hash) := [(sampleHash 4, sampleHash 1), (sampleHash 2, sampleHash 7), (sampleHash 4, sampleHash 0)]

/-- The bytes of the keys that are deleted. -/
def sampleSize (keys : List Bytes) : Nat := keys.foldl (fun size key => size + key.length) 0

/-- The first trie is done before the second one is asked for. -/
def sampleRun : Option QueueRun :=
  run (fun state step => some (state.step sampleSize step)) (fun state step => decide (Allowed state step))
    [.getNextTrie, .storageTrieDone (sampleHash 2), .getNextTrie] ⟨registerAll (newTrieQueue sampleDB) samplePairs, [], []⟩

example : sampleRun.map QueueRun.returned =
    some [⟨sampleHash 2, [sampleHash 7], true⟩, ⟨sampleHash 4, [sampleHash 0, sampleHash 1], false⟩] := by decide +kernel

theorem storage_tries_returned_once_sample : ∃ state, sampleRun = some state ∧
    ∀ root account, Registered sampleDB samplePairs root account → root ∈ state.returned.map Turn.root := by
  obtain ⟨state, ran⟩ : ∃ state, sampleRun = some state := Option.isSome_iff_exists.mp (by decide +kernel)
  have ended : (sampleRun.bind fun state => state.returned.getLast?.map Turn.more) = some false := by decide +kernel
  rw [ran, Option.bind_some, Option.map_eq_some_iff] at ended
  obtain ⟨last, latest, no_more⟩ := ended
  have nonzero (root account : Hash) (registered : Registered sampleDB samplePairs root account) : root ≠ zeroHash := by
    rcases registered with listed | marked
    · have all_nonzero : ∀ pair ∈ samplePairs, pair.1 ≠ zeroHash := by decide +kernel
      exact all_nonzero (root, account) listed
    · rcases (AList.mem_insert _).mp marked with same | nowhere
      · have lengths := congrArg List.length same
        rw [length_packSyncStorageTrieKey] at lengths
        exact absurd lengths (by decide)
      · cases nowhere
  have start : Reach (queueSystem sampleSize (registerAll (newTrieQueue sampleDB) samplePairs)) Allowed
      ⟨registerAll (newTrieQueue sampleDB) samplePairs, [], []⟩ := .start rfl
  have reach := start.ofRun (fun _ _ _ stepped => (Option.some.inj stepped).symm) (fun _ _ => of_decide_eq_true) ran
  obtain ⟨-, -, -, last_iff, -⟩ := storage_tries_returned_once sampleSize sampleDB samplePairs nonzero
    ⟨sampleHash 4, sampleHash 1, .inl List.mem_cons_self⟩ state reach
  exact ⟨state, ran, (last_iff last latest).mp no_more⟩

end Snowside.Queue
