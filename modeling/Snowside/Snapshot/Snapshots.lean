import Snowside.Blockchain.Canonical
import Snowside.Snapshot.Merging

/-! Runs of the snapshot tree: what is read through the layers of blocks, and what flattenings change of it. -/

set_option autoImplicit false

namespace Snowside.Snapshot

open Ancestry (Ancestor IsParent Path)
open Blockchain (ChainBlock Route hash hash_injective)
open Runs (System Reach)
open SnapshotBlock (stateRoot changes)

/-! ## The system -/

/-- What is done to the tree. -/
inductive Call (Block ID Root Key : Type) where
  | update (parent block : Block)
  | flatten (block : Block)
  | discard (block : Block)
  | read (ref : Ref) (item : Item Key)
  /-- The cache loses what it likes. -/
  | evict (item : Item Key)
  | generate (id : Nat) (layer : DiskLayer ID Root Key) (genMarker : Option (Marker Key)) (diskdb : Item Key → Bytes)

section

variable {Block ID Root Key Filter : Type} [ChainBlock Block ID] [SnapshotBlock Block Root Key] [LinearOrder Key]
  [BloomFilter Filter] [DecidableEq ID] [DecidableEq Root]

/-- The tree, the block that was flattened last, and the blocks over it that are alive. -/
structure Snapshots (Block ID Root Key Filter : Type) where
  tree : Tree ID Root Key Filter
  last : Block
  live : Block → Prop

/-- The tree of a disk layer alone. -/
def Tree.new (blockHash : ID) (root : Root) (genMarker : Option (Marker Key)) (diskdb : Item Key → Bytes) : Tree ID Root Key Filter :=
  Tree.insertSnap ⟨fun id => if id = 0 then some ⟨root, blockHash, false, genMarker⟩ else none, fun _ => none, 1, diskdb,
    fun _ => none, ∅, ∅⟩ (.disk 0) blockHash root

namespace Snapshots

variable (hashers : Hashers Key)

/-- A call that fails changes nothing. A block that is discarded takes what is over it out of the live blocks, and so
does one that is inserted again. -/
def make (state : Snapshots Block ID Root Key Filter) : Call Block ID Root Key → Snapshots Block ID Root Key Filter
  | .update parent block =>
      match state.tree.updateWithBlockHashes hashers (hash block) (stateRoot block) (hash parent) (changes block) with
      | .error _ => state
      | .ok tree => ⟨tree, state.last, fun own => own = block ∧ state.live parent ∨ state.live own ∧ ¬ Ancestor block own⟩
  | .flatten block =>
      match state.tree.flatten hashers (hash block) with
      | .error _ => state
      | .ok tree => ⟨tree, block, fun own => own = block ∨ state.live own ∧ Ancestor block own⟩
  | .discard block =>
      match state.tree.discard (hash block) false with
      | .error _ => state
      | .ok tree => ⟨tree, state.last, fun own => state.live own ∧ ¬ Ancestor block own⟩
  | .read ref item => { state with tree := (state.tree.read hashers ref item).2 }
  | .evict item => { state with tree := { state.tree with cache := Function.update state.tree.cache item none } }
  | .generate id layer genMarker diskdb => { state with tree := state.tree.generated id layer genMarker diskdb }

/-- A block comes with its parent; the generator goes on at the disk layer, and writes what the state of its block has. -/
def Legal (origin : Block) (start : FlatState Key) (state : Snapshots Block ID Root Key Filter) : Call Block ID Root Key → Prop
  | .update parent block => IsParent parent block
  | .generate id layer genMarker diskdb => state.tree.disks id = some layer ∧ layer.stale = false ∧
      (∀ item, covers layer.genMarker item = true → covers genMarker item = true ∧ diskdb item = state.tree.diskdb item) ∧
      ∀ path, Path origin path state.last → ∀ item, covers genMarker item = true → diskdb item = stateAfter start path item
  | _ => True

end Snapshots

/-- The trees over the disk layer of a block, as far as it is generated. -/
def snapshots (Filter : Type) [BloomFilter Filter] (hashers : Hashers Key) (origin : Block) (start : FlatState Key) :
    System (Snapshots Block ID Root Key Filter) (Call Block ID Root Key) where
  initial state := ∃ genMarker diskdb, (∀ item, covers genMarker item = true → diskdb item = start item) ∧
    state = ⟨.new (hash origin) (stateRoot origin) genMarker diskdb, origin, fun own => own = origin⟩
  step state call after := after = state.make hashers call

/-! ## The invariant over runs -/

variable {hashers : Hashers Key} {origin : Block} {start : FlatState Key} {state : Snapshots Block ID Root Key Filter}

theorem whole_new (hashers : Hashers Key) (origin : Block) {genMarker : Option (Marker Key)} {diskdb : Item Key → Bytes}
    (right : ∀ item, covers genMarker item = true → diskdb item = start item) :
    Whole hashers origin start (.new (hash origin) (stateRoot origin) genMarker diskdb : Tree ID Root Key Filter) 0 origin
      fun own => own = origin := by
  have found : (.new (hash origin) (stateRoot origin) genMarker diskdb : Tree ID Root Key Filter).disks 0 =
      some ⟨stateRoot origin, hash origin, false, genMarker⟩ := rfl
  have only : ∀ id layer, (.new (hash origin) (stateRoot origin) genMarker diskdb : Tree ID Root Key Filter).disks id = some layer →
      id = 0 := by
    intro id layer there
    by_contra other
    replace there : (if id = 0 then some (⟨stateRoot origin, hash origin, false, genMarker⟩ : DiskLayer ID Root Key) else none) =
      some layer := there
    rw [if_neg other] at there
    cases there
  have lookup : ∀ key ref, (.new (hash origin) (stateRoot origin) genMarker diskdb : Tree ID Root Key Filter).blockLayers.lookup key =
      some ref → key = hash origin ∧ ref = .disk 0 := by
    intro key ref there
    replace there : ((∅ : Maps.Map ID Ref).insert (hash origin) (.disk 0)).lookup key = some ref := there
    by_cases same : key = hash origin
    · rw [same, AList.lookup_insert] at there
      exact ⟨same, (Option.some.inj there).symm⟩
    · rw [AList.lookup_insert_ne same, AList.lookup_empty] at there
      cases there
  constructor
  case heap =>
    constructor
    case rooted => exact .refl origin
    case disk =>
      refine ⟨_, found, rfl, rfl, rfl, fun item blob cached => (by cases cached), fun path leads item covered => ?_⟩
      obtain rfl : path = [] := leads.unique rfl
      exact right item covered
    case former => exact fun id layer there other => absurd (only id layer there) other
    case diffs => exact fun id layer there => (by cases there)
    case fresh =>
      intro id high
      have high : 1 ≤ id := high
      exact ⟨if_neg (by omega), rfl⟩
  case named =>
    intro key ref there
    obtain ⟨rfl, rfl⟩ := lookup key ref there
    exact Option.map_eq_some_iff.mpr ⟨_, found, rfl⟩
  case ground => exact AList.lookup_insert _
  case single => exact fun key id there => Ref.disk.inj (lookup key _ there).2
  case lowest => exact fun own ref there _ => hash_injective (lookup _ ref there).1
  case listed =>
    refine Tree.Listed.insertSnap ⟨fun root key ref there => ?_, fun key ref there => ?_⟩
      (Option.map_eq_some_iff.mpr ⟨_, found, rfl⟩) fun other_root ref there => ?_
    · cases there
    · cases there
    · cases there
  case linked =>
    rintro own rfl
    exact .disk

/-- The invariant holds in every run. -/
theorem exists_whole (reach : Reach (snapshots Filter hashers origin start) (Snapshots.Legal origin start) state) :
    ∃ base, Whole hashers origin start state.tree base state.last state.live := by
  refine reach.invariant (fun state => ∃ base, Whole hashers origin start state.tree base state.last state.live)
    (fun state initial => ?_) fun state call after holds legal stepped => ?_
  · obtain ⟨genMarker, diskdb, right, rfl⟩ := initial
    exact ⟨0, whole_new hashers origin right⟩
  · obtain ⟨base, whole⟩ := holds
    rw [show after = state.make hashers call from stepped]
    cases call with
    | update parent block =>
      unfold Snapshots.make
      dsimp only
      split
      · exact ⟨base, whole⟩
      · next tree updated => exact ⟨base, whole.update legal updated⟩
    | flatten block =>
      unfold Snapshots.make
      dsimp only
      split
      · exact ⟨base, whole⟩
      · next tree flattened => exact ⟨_, whole.flatten flattened⟩
    | discard block =>
      unfold Snapshots.make
      dsimp only
      split
      · exact ⟨base, whole⟩
      · next tree discarded => exact ⟨base, whole.discard discarded⟩
    | read ref item => exact ⟨base, whole.read ref item⟩
    | evict item => exact ⟨base, whole.evict item⟩
    | generate id layer genMarker diskdb =>
      obtain ⟨current, fresh, further, right⟩ := legal
      exact ⟨base, whole.generated current fresh further right⟩

/-! ## What is read -/

/-- Every listed block is over the first one. What a layer that was ever there answers is what its block has, if it answers.
A live block answers what the blocks from the disk layer up to it make of the disk. A flattening changes of that only what
the disk does not cover and no block above the flattened one changes. A layer is listed under its block exactly if it is under
its root. -/
structure Snapshots.Agree (hashers : Hashers Key) (origin : Block) (start : FlatState Key)
    (state : Snapshots Block ID Root Key Filter) (disk : DiskLayer ID Root Key) : Prop where
  rooted : ∀ (own : Block) ref, state.tree.blockLayers.lookup (hash own) = some ref → Ancestor origin own
  layers : ∀ (own : Block) ref item, state.tree.blockHashOf ref = some (hash own) →
    Correct origin start own item (state.tree.read hashers ref item).1
  live : ∀ own, state.live own → ∃ ref path, state.tree.blockLayers.lookup (hash own) = some ref ∧ Path state.last path own ∧
    ∀ item, (state.tree.read hashers ref item).1 = answer disk.genMarker state.tree.diskdb path item
  flattened : ∀ block after, state.tree.flatten hashers (hash block) = .ok after → ∀ own, state.live own → Ancestor block own →
    ∃ old new path, state.tree.blockLayers.lookup (hash own) = some old ∧ after.blockLayers.lookup (hash own) = some new ∧
      Path block path own ∧ ∀ item, (after.read hashers new item).1 =
        if covers disk.genMarker item || changed path item then (state.tree.read hashers old item).1 else .error .notCoveredYet
  listed : ∀ key ref root, state.tree.rootOf ref = some root →
    (state.tree.blockLayers.lookup key = some ref ↔ state.tree.stateLayer root key = some ref)

/-- The layers agree with the states they stand for in every run. -/
theorem snapshots_agree (reach : Reach (snapshots Filter hashers origin start) (Snapshots.Legal origin start) state) :
    ∃ base disk, state.tree.blockLayers.lookup (hash state.last) = some (.disk base) ∧ state.tree.disks base = some disk ∧
      state.Agree hashers origin start disk := by
  obtain ⟨base, whole⟩ := exists_whole reach
  obtain ⟨disk, current, -⟩ := whole.heap.disk
  refine ⟨base, disk, whole.ground, current, ?_⟩
  constructor
  case rooted => exact fun own ref listed => whole.rooted listed
  case layers => exact fun own ref item there => whole.heap.read there item
  case live =>
    intro own lives
    have linked := whole.linked own lives
    obtain ⟨ref, listed, -⟩ := linked.listed whole.ground
    obtain ⟨path, leads⟩ := Path.exists_of_ancestor linked.above
    exact ⟨ref, path, listed, leads, linked.read whole.heap whole.named whole.ground current leads listed⟩
  case flattened =>
    intro block after flattened own lives above
    have later := whole.flatten flattened
    have linked := whole.linked own lives
    have linked_later := later.linked own (.inr ⟨lives, above⟩)
    obtain ⟨old, listed, -⟩ := linked.listed whole.ground
    obtain ⟨new, listed_later, -⟩ := linked_later.listed later.ground
    obtain ⟨id, layer, last, replaced, bare, between, flattens⟩ := flattens_of_flatten flattened
    obtain ⟨rfl, -, stands, step⟩ := whole.merges flattens
    obtain ⟨path, leads⟩ := Path.exists_of_ancestor above
    obtain rfl := Option.some.inj (current.symm.trans flattens.current)
    refine ⟨old, new, path, listed, listed_later, leads, fun item => ?_⟩
    have whole_path : Path state.last (block :: path) own := ⟨step, leads⟩
    rw [linked_later.read later.heap later.named later.ground flattens.pushed.1 leads listed_later item,
      linked.read whole.heap whole.named whole.ground current whole_path listed item, ← answer_push, flattens.pushed.2, stands.diff]
  case listed => exact fun key ref root rooted => whole.listed.iff rooted

end

/-! ## A snapshot that is generated -/

/-- A filter that remembers all hashes. -/
instance : BloomFilter (List UInt64) where
  new := []
  addHash filter added := added :: filter
  containsHash filter hash := filter.contains hash
  contains_added filter added := by rw [List.contains_cons, beq_self_eq_true, Bool.true_or]
  contains_kept filter added other held := by rw [List.contains_cons, held, Bool.or_true]

/-- Every block writes one account, that of its last turn. -/
instance : SnapshotBlock Route Nat Nat where
  stateRoot block := block.turns.length
  changes block := ⟨[], (∅ : Maps.Map Nat Bytes).insert (block.turns.headD 0) [1], ∅⟩

def sampleHashers : Hashers Nat where
  destructBloomHash accountHash := .ofNat accountHash
  accountBloomHash accountHash := .ofNat (accountHash + 1)
  storageBloomHash accountHash storageHash := .ofNat (accountHash + storageHash)

/-- Nothing is generated yet over an empty state. -/
def sampleStart : Snapshots Route (Option (List Nat)) Nat Nat (List UInt64) :=
  ⟨.new (hash (⟨[]⟩ : Route)) 0 (some .start) fun _ => [], ⟨[]⟩, fun own => own = ⟨[]⟩⟩

/-- Two blocks, one over the other. -/
def grown : Snapshots Route (Option (List Nat)) Nat Nat (List UInt64) :=
  (sampleStart.make sampleHashers (.update ⟨[]⟩ ⟨[7]⟩)).make sampleHashers (.update ⟨[7]⟩ ⟨[8, 7]⟩)

theorem grown_reach : Reach (snapshots (List UInt64) sampleHashers (⟨[]⟩ : Route) fun _ => [])
    (Snapshots.Legal ⟨[]⟩ fun _ => []) grown := by
  have starts : Reach (snapshots (List UInt64) sampleHashers (⟨[]⟩ : Route) fun _ => []) (Snapshots.Legal ⟨[]⟩ fun _ => [])
      sampleStart := .start ⟨some .start, fun _ => [], fun _ _ => rfl, rfl⟩
  have first : (sampleStart.Legal ⟨[]⟩ fun _ => []) (.update ⟨[]⟩ ⟨[7]⟩) :=
    show IsParent (⟨[]⟩ : Route) ⟨[7]⟩ from ⟨rfl, rfl⟩
  have second : ((sampleStart.make sampleHashers (.update ⟨[]⟩ ⟨[7]⟩)).Legal ⟨[]⟩ fun _ => []) (.update ⟨[7]⟩ ⟨[8, 7]⟩) :=
    show IsParent (⟨[7]⟩ : Route) ⟨[8, 7]⟩ from ⟨rfl, rfl⟩
  exact (starts.next first rfl).next second rfl

/-- The lower block's account is read through the upper block until the lower one is flattened. -/
theorem flattened_not_covered : Reach (snapshots (List UInt64) sampleHashers (⟨[]⟩ : Route) fun _ => [])
    (Snapshots.Legal ⟨[]⟩ fun _ => []) grown ∧
    ∃ after, grown.tree.flatten sampleHashers (hash (⟨[7]⟩ : Route)) = .ok after ∧ grown.live ⟨[8, 7]⟩ ∧ Ancestor (⟨[7]⟩ : Route) ⟨[8, 7]⟩ ∧
    (∃ old, grown.tree.blockLayers.lookup (hash (⟨[8, 7]⟩ : Route)) = some old ∧
      (grown.tree.read sampleHashers old (.account 7)).1 = .ok [1]) ∧
    ∃ new, after.blockLayers.lookup (hash (⟨[8, 7]⟩ : Route)) = some new ∧
      (after.read sampleHashers new (.account 7)).1 = .error .notCoveredYet := by
  have step : IsParent (⟨[7]⟩ : Route) ⟨[8, 7]⟩ := ⟨rfl, rfl⟩
  refine ⟨grown_reach, _, rfl, ?_, .of_parent step, ⟨.diff 2, rfl, rfl⟩, .diff 2, rfl, rfl⟩
  exact .inl ⟨rfl, .inl ⟨rfl, rfl⟩⟩

theorem snapshots_agree_sample : ∃ base disk, grown.tree.blockLayers.lookup (hash grown.last) = some (.disk base) ∧
    grown.tree.disks base = some disk ∧ grown.Agree sampleHashers ⟨[]⟩ (fun _ => []) disk :=
  snapshots_agree grown_reach

end Snowside.Snapshot
