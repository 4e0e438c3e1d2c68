import Snowside.Snapshot.Attached

/-! The invariant of the snapshot tree, and that insertions, rejections and reads keep it. -/

set_option autoImplicit false

namespace Snowside.Snapshot

open Ancestry (Ancestor IsParent Path)
open Blockchain (ChainBlock hash hash_injective)
open SnapshotBlock (stateRoot changes)

section

variable {Block ID Root Key Filter : Type} [ChainBlock Block ID] [SnapshotBlock Block Root Key] [LinearOrder Key]
  [BloomFilter Filter] [DecidableEq ID] [DecidableEq Root] {hashers : Hashers Key} {origin bottom block own : Block}
  {start : FlatState Key} {tree after : Tree ID Root Key Filter} {base id : Nat} {live : Block → Prop} {key : ID} {root : Root}
  {ref : Ref}

/-- The layers stand for their blocks, both listings are of the same layers, and the live blocks are linked to the disk. -/
structure Whole (hashers : Hashers Key) (origin : Block) (start : FlatState Key) (tree : Tree ID Root Key Filter) (base : Nat)
    (bottom : Block) (live : Block → Prop) : Prop where
  heap : Heap hashers origin start tree base bottom
  named : tree.Named
  ground : tree.blockLayers.lookup (hash bottom) = some (.disk base)
  single : ∀ key id, tree.blockLayers.lookup key = some (.disk id) → id = base
  lowest : ∀ (own : Block) ref, tree.blockLayers.lookup (hash own) = some ref → Ancestor own bottom → own = bottom
  listed : tree.Listed
  linked : ∀ own, live own → Linked tree base bottom own

/-! ## Listings of kept layers -/

omit [ChainBlock Block ID] [SnapshotBlock Block Root Key] [LinearOrder Key] [BloomFilter Filter] in
theorem Tree.Listed.mono (listed : tree.Listed) (carries : Carries tree after) (blocks : after.blockLayers = tree.blockLayers)
    (states : after.stateLayers = tree.stateLayers) : after.Listed where
  filed root key ref there := by
    unfold Tree.stateLayer at there
    rw [states] at there
    obtain ⟨under, rooted⟩ := listed.filed root key ref there
    rw [blocks]
    exact ⟨under, carries.roots rooted⟩
  listed key ref there := by
    rw [blocks] at there
    obtain ⟨root, rooted, filed⟩ := listed.listed key ref there
    refine ⟨root, carries.roots rooted, ?_⟩
    unfold Tree.stateLayer
    rw [states]
    exact filed

omit [ChainBlock Block ID] [SnapshotBlock Block Root Key] [LinearOrder Key] [BloomFilter Filter] [DecidableEq Root] in
theorem Tree.Named.carried (named : tree.Named) (carries : Carries tree after) (blocks : after.blockLayers = tree.blockLayers) :
    after.Named := by
  intro key ref there
  rw [blocks] at there
  exact carries.names ref key (named key ref there)

omit [ChainBlock Block ID] [SnapshotBlock Block Root Key] [LinearOrder Key] [BloomFilter Filter] in
theorem Tree.Named.insertSnap (named : tree.Named) (there : tree.blockHashOf ref = some key) : (tree.insertSnap ref key root).Named := by
  intro other found listed
  replace listed : (tree.blockLayers.insert key ref).lookup other = some found := listed
  by_cases same : other = key
  · subst same
    rw [AList.lookup_insert] at listed
    obtain rfl := Option.some.inj listed
    exact there
  · rw [AList.lookup_insert_ne same] at listed
    exact named other found listed

omit [ChainBlock Block ID] [SnapshotBlock Block Root Key] [LinearOrder Key] [BloomFilter Filter] in
theorem Tree.Named.discard (named : tree.Named) (discarded : Discarded key tree after) : after.Named := by
  intro other found listed
  rw [discarded.same] at listed ⊢
  replace listed : (tree.blockLayers.erase key).lookup other = some found := listed
  by_cases same : other = key
  · subst same
    rw [AList.lookup_erase] at listed
    cases listed
  · rw [AList.lookup_erase_ne same] at listed
    exact named other found listed

/-! ## Insertions -/

omit [SnapshotBlock Block Root Key] [LinearOrder Key] in
theorem insertedSnap_of_update {hashers : Hashers Key} {blockHash parentBlockHash : ID} {blockRoot : Root} {diff : Diff Key}
    (updated : tree.updateWithBlockHashes hashers blockHash blockRoot parentBlockHash diff = .ok after) :
    ∃ parent from_origin, tree.blockLayers.lookup parentBlockHash = some parent ∧ tree.originOver parent = some from_origin ∧
      after = (tree.grow ⟨from_origin, parent, blockHash, blockRoot, diff, tree.bloom hashers parent diff⟩).insertSnap
        (.diff tree.next) blockHash blockRoot := by
  unfold Tree.updateWithBlockHashes at updated
  split at updated
  · cases updated
  · next parent listed =>
    split at updated
    · cases updated
    · next from_origin onto =>
      exact ⟨parent, from_origin, listed, onto, (Except.ok.inj updated).symm⟩

theorem Whole.rooted (whole : Whole hashers origin start tree base bottom live)
    (listed : tree.blockLayers.lookup (hash own) = some ref) : Ancestor origin own := by
  have named := whole.named _ _ listed
  cases ref with
  | disk id =>
    obtain rfl := whole.single _ id listed
    obtain rfl : own = bottom := hash_injective (Option.some.inj (named.symm.trans (whole.named _ _ whole.ground)))
    exact whole.heap.rooted
  | diff id =>
    obtain ⟨layer, found, same⟩ := exists_diff named
    obtain ⟨owner, stands⟩ := whole.heap.diffs id layer found
    obtain rfl : owner = own := hash_injective (stands.blockHash.symm.trans same)
    exact stands.rooted.1

/-- What is listed for a block has the state root of the block. -/
theorem Whole.rootOf (whole : Whole hashers origin start tree base bottom live)
    (listed : tree.blockLayers.lookup (hash own) = some ref) : tree.rootOf ref = some (stateRoot own) := by
  have named := whole.named _ _ listed
  cases ref with
  | disk id =>
    obtain rfl := whole.single _ id listed
    obtain ⟨disk, found, same⟩ := exists_disk named
    obtain ⟨known, current, named_bottom, root, -⟩ := whole.heap.disk
    obtain rfl := Option.some.inj (found.symm.trans current)
    obtain rfl : own = bottom := hash_injective (same.symm.trans named_bottom)
    exact Option.map_eq_some_iff.mpr ⟨disk, found, root⟩
  | diff id =>
    obtain ⟨layer, found, same⟩ := exists_diff named
    obtain ⟨owner, stands⟩ := whole.heap.diffs id layer found
    obtain rfl : owner = own := hash_injective (stands.blockHash.symm.trans same)
    exact Option.map_eq_some_iff.mpr ⟨layer, found, stands.root⟩

theorem Whole.grow (whole : Whole hashers origin start tree base bottom live) {layer : DiffLayer ID Root Key Filter} {parent : Block}
    (step : IsParent parent block) (stands : layer.Stands hashers origin tree tree.next block)
    (listed_parent : tree.blockLayers.lookup (hash parent) = some layer.parent)
    (onto : tree.originOver layer.parent = some layer.origin) :
    Whole hashers origin start ((tree.grow layer).insertSnap (.diff tree.next) (hash block) (stateRoot block)) base bottom
      fun own => own = block ∧ live parent ∨ live own ∧ ¬ Ancestor block own := by
  have next := Ancestry.level_child step
  have not_under : ¬ Ancestor block bottom := by
    intro ancestor
    have same := whole.lowest parent layer.parent listed_parent ((Ancestor.of_parent step).trans ancestor)
    have low := ancestor.level_le
    rw [← same] at low
    omega
  have not_above : ¬ Ancestor block parent := by
    intro ancestor
    have low := ancestor.level_le
    omega
  have carries := carries_grown whole.heap.fresh layer
  have found : (tree.grow layer).diffs tree.next = some layer := Function.update_self ..
  have kept : ∀ other : Block, ¬ Ancestor block other →
      (tree.blockLayers.insert (hash block) (.diff tree.next)).lookup (hash other) = tree.blockLayers.lookup (hash other) := by
    intro other apart
    refine AList.lookup_insert_ne fun same => apart ?_
    rw [hash_injective same]
    exact .refl block
  have transfer : ∀ {other : Block}, live other → ¬ Ancestor block other →
      Linked ((tree.grow layer).insertSnap (.diff tree.next) (hash block) (stateRoot block)) base bottom other := by
    intro other lives apart
    refine (whole.linked other lives).transfer_apart apart kept fun id old there => ?_
    refine (Function.update_of_ne ?_ ..).trans there
    rintro rfl
    rw [(whole.heap.fresh _ (Nat.le_refl _)).2] at there
    cases there
  constructor
  case heap => exact (whole.heap.grow stands).relist _ _
  case named =>
    exact (whole.named.carried carries rfl).insertSnap (Option.map_eq_some_iff.mpr ⟨layer, found, stands.blockHash⟩)
  case ground => exact (kept bottom not_under).trans whole.ground
  case single =>
    intro key id listed
    replace listed : (tree.blockLayers.insert (hash block) (.diff tree.next)).lookup key = some (.disk id) := listed
    by_cases same : key = hash block
    · rw [same, AList.lookup_insert] at listed
      cases listed
    · rw [AList.lookup_insert_ne same] at listed
      exact whole.single key id listed
  case lowest =>
    intro own ref listed ancestor
    have apart : ¬ Ancestor block own := fun above => not_under (above.trans ancestor)
    exact whole.lowest own ref ((kept own apart).symm.trans listed) ancestor
  case listed =>
    refine (whole.listed.mono carries rfl rfl).insertSnap (Option.map_eq_some_iff.mpr ⟨layer, found, stands.root⟩) ?_
    intro other_root other filed
    obtain ⟨under, rooted⟩ := whole.listed.filed other_root (hash block) other filed
    exact Option.some.inj (rooted.symm.trans (whole.rootOf under))
  case linked =>
    rintro own (⟨rfl, lives⟩ | ⟨lives, apart⟩)
    · refine .diff (transfer lives not_above) step (AList.lookup_insert _) found ((kept parent not_above).trans listed_parent) ?_
      obtain ⟨ref, there, from_base⟩ := (whole.linked parent lives).listed whole.ground
      obtain rfl := Option.some.inj (listed_parent.symm.trans there)
      exact Option.some.inj (onto.symm.trans from_base)
    · exact transfer lives apart

/-- A block on a block. What was over it is not live after it is inserted again. -/
theorem Whole.update (whole : Whole hashers origin start tree base bottom live) {parent : Block} (step : IsParent parent block)
    (updated : tree.updateWithBlockHashes hashers (hash block) (stateRoot block) (hash parent) (changes block) = .ok after) :
    Whole hashers origin start after base bottom fun own => own = block ∧ live parent ∨ live own ∧ ¬ Ancestor block own := by
  obtain ⟨under, from_origin, listed_parent, onto, rfl⟩ := insertedSnap_of_update updated
  have stands := whole.heap.stands_new step (whole.named _ _ listed_parent)
    (fun id same => whole.single _ id (same ▸ listed_parent)) onto
  exact whole.grow step stands listed_parent onto

/-! ## Rejections -/

omit [ChainBlock Block ID] [SnapshotBlock Block Root Key] [LinearOrder Key] [BloomFilter Filter] in
/-- Only a flattening discards the disk layer. -/
theorem not_disk_of_discard (discarded : tree.discard key false = .ok after) : tree.blockLayers.lookup key ≠ some (.disk id) := by
  intro listed
  unfold Tree.discard at discarded
  rw [listed] at discarded
  cases discarded

theorem Whole.discard (whole : Whole hashers origin start tree base bottom live)
    (discarded : tree.discard (hash block) false = .ok after) :
    Whole hashers origin start after base bottom fun own => live own ∧ ¬ Ancestor block own := by
  have shape := discarded_of_discard discarded
  have other_block : bottom ≠ block := by
    rintro rfl
    exact not_disk_of_discard discarded whole.ground
  have blocks : after.blockLayers = tree.blockLayers.erase (hash block) := by rw [shape.same]
  have kept : ∀ other : Block, other ≠ block →
      after.blockLayers.lookup (hash other) = tree.blockLayers.lookup (hash other) := by
    intro other apart
    rw [blocks]
    exact AList.lookup_erase_ne fun same => apart (hash_injective same)
  have was : ∀ key ref, after.blockLayers.lookup key = some ref → tree.blockLayers.lookup key = some ref := by
    intro key ref there
    rw [blocks] at there
    by_cases same : key = hash block
    · rw [same, AList.lookup_erase] at there
      cases there
    · rwa [AList.lookup_erase_ne same] at there
  constructor
  case heap =>
    rw [shape.same]
    exact whole.heap.relist _ _
  case named => exact whole.named.discard shape
  case ground => exact (kept bottom other_block).trans whole.ground
  case single => exact fun key id there => whole.single key id (was key _ there)
  case lowest => exact fun own ref there => whole.lowest own ref (was _ ref there)
  case listed => exact whole.listed.discard shape
  case linked =>
    rintro own ⟨lives, apart⟩
    refine (whole.linked own lives).transfer_apart apart (fun other not_over => kept other ?_) fun id layer there => ?_
    · rintro rfl
      exact not_over (.refl other)
    · rw [shape.same]
      exact there

/-! ## Reads and the generator -/

/-- Another disk under the same layers and listings. -/
theorem Whole.with_heap (whole : Whole hashers origin start tree base bottom live)
    (heap : Heap hashers origin start after base bottom) (carries : Carries tree after) (diffs : after.diffs = tree.diffs)
    (blocks : after.blockLayers = tree.blockLayers) (states : after.stateLayers = tree.stateLayers) :
    Whole hashers origin start after base bottom live where
  heap := heap
  named := whole.named.carried carries blocks
  ground := by
    rw [blocks]
    exact whole.ground
  single key id there := by
    rw [blocks] at there
    exact whole.single key id there
  lowest own ref there := by
    rw [blocks] at there
    exact whole.lowest own ref there
  listed := whole.listed.mono carries blocks states
  linked own lives := by
    refine (whole.linked own lives).transfer (fun _ _ _ _ => trivial) trivial (fun other _ => ?_) fun id layer found => ?_
    · rw [blocks]
    · rw [diffs]
      exact found

theorem Whole.read (whole : Whole hashers origin start tree base bottom live) (ref : Ref) (item : Item Key) :
    Whole hashers origin start (tree.read hashers ref item).2 base bottom live := by
  obtain ⟨cache, same, heap⟩ := whole.heap.after_read ref item
  rw [same]
  exact whole.with_heap heap
    ⟨fun _ layer found => ⟨layer, found, rfl, rfl⟩, fun _ layer found => ⟨layer, found, rfl, rfl⟩⟩ rfl rfl rfl

theorem Whole.evict (whole : Whole hashers origin start tree base bottom live) (item : Item Key) :
    Whole hashers origin start { tree with cache := Function.update tree.cache item none } base bottom live := by
  refine whole.with_heap (whole.heap.store fun layer current => ?_)
    ⟨fun _ layer found => ⟨layer, found, rfl, rfl⟩, fun _ layer found => ⟨layer, found, rfl, rfl⟩⟩ rfl rfl rfl
  obtain ⟨known, there, -, -, -, coherent, agrees⟩ := whole.heap.disk
  obtain rfl := Option.some.inj (current.symm.trans there)
  refine ⟨fun other blob cached => ?_, agrees⟩
  by_cases here : other = item
  · rw [here, Function.update_self] at cached
    cases cached
  · rw [Function.update_of_ne here] at cached
    exact coherent other blob cached

/-- What the generator has done at a disk layer: it is further on, and has written what it passed. -/
def Tree.generated (tree : Tree ID Root Key Filter) (id : Nat) (layer : DiskLayer ID Root Key) (genMarker : Option (Marker Key))
    (diskdb : Item Key → Bytes) : Tree ID Root Key Filter :=
  { tree with
    disks := Function.update tree.disks id (some { layer with genMarker := genMarker })
    diskdb := diskdb }

theorem Whole.generated (whole : Whole hashers origin start tree base bottom live) {layer : DiskLayer ID Root Key}
    (current : tree.disks id = some layer) (fresh : layer.stale = false) {genMarker : Option (Marker Key)} {diskdb : Item Key → Bytes}
    (further : ∀ item, covers layer.genMarker item = true → covers genMarker item = true ∧ diskdb item = tree.diskdb item)
    (right : ∀ path, Path origin path bottom → ∀ item, covers genMarker item = true → diskdb item = stateAfter start path item) :
    Whole hashers origin start (tree.generated id layer genMarker diskdb) base bottom live := by
  have last : id = base := by
    by_contra other
    cases fresh.symm.trans (whole.heap.former id layer current other).1
  subst last
  have carries : Carries tree (tree.generated id layer genMarker diskdb) := by
    refine ⟨fun other found there => ?_, fun _ found there => ⟨found, there, rfl, rfl⟩⟩
    by_cases here : other = id
    · subst here
      obtain rfl := Option.some.inj (current.symm.trans there)
      exact ⟨_, Function.update_self .., rfl, rfl⟩
    · exact ⟨found, (Function.update_of_ne here ..).trans there, rfl, rfl⟩
  refine whole.with_heap ?_ carries rfl rfl rfl
  obtain ⟨known, there, named, root, live, coherent, agrees⟩ := whole.heap.disk
  obtain rfl := Option.some.inj (current.symm.trans there)
  constructor
  case rooted => exact whole.heap.rooted
  case disk =>
    refine ⟨_, Function.update_self .., named, root, live, fun item blob cached => ?_, right⟩
    obtain ⟨covered, same⟩ := coherent item blob cached
    obtain ⟨still, kept⟩ := further item covered
    exact ⟨still, same.trans kept.symm⟩
  case former =>
    intro other found there apart
    exact whole.heap.former other found ((Function.update_of_ne apart ..).symm.trans there) apart
  case diffs =>
    intro other found there
    obtain ⟨own, stands⟩ := whole.heap.diffs other found there
    exact ⟨own, stands.mono carries.names⟩
  case fresh =>
    intro other high
    obtain ⟨disks, diffs⟩ := whole.heap.fresh other high
    refine ⟨?_, diffs⟩
    refine (Function.update_of_ne ?_ ..).trans disks
    rintro rfl
    cases current.symm.trans disks

end

end Snowside.Snapshot
