import Mathlib.Data.List.Induction
import Snowside.Snapshot.Reads

/-! What a layer answers is the state of its block, or that it is stale or not covered. -/

set_option autoImplicit false

namespace Snowside.Snapshot

open Ancestry (Ancestor IsParent Path)
open Blockchain (ChainBlock hash hash_injective number number_child number_le)

/-- The root and the changes of a block. -/
class SnapshotBlock (Block : Type) (Root Key : outParam Type) where
  stateRoot : Block → Root
  changes : Block → Diff Key

open SnapshotBlock (stateRoot changes)

section

variable {Block ID Root Key Filter : Type} [ChainBlock Block ID] [SnapshotBlock Block Root Key] [LinearOrder Key]

/-- The state after the blocks of a path. -/
def stateAfter (start : FlatState Key) (path : List Block) : FlatState Key :=
  path.foldl (fun state block => (changes block).apply state) start

/-- A read at a block that is answered at all gives what the state of the block has. -/
def Correct (origin : Block) (start : FlatState Key) (block : Block) (item : Item Key) : Except ReadError Bytes → Prop
  | .ok data => ∀ path, Path origin path block → data = stateAfter start path item
  | .error .stale => True
  | .error .notCoveredYet => True
  | .error .missingLayer => False

variable [BloomFilter Filter]

/-- A diff layer is that of a block over the origin; its filter has all changes from its origin up to it. -/
structure DiffLayer.Stands (hashers : Hashers Key) (origin : Block) (tree : Tree ID Root Key Filter) (id : Nat)
    (layer : DiffLayer ID Root Key Filter) (own : Block) : Prop where
  blockHash : layer.blockHash = hash own
  root : layer.root = stateRoot own
  diff : layer.diff = changes own
  parent : ∃ parent : Block, IsParent parent own ∧ tree.blockHashOf layer.parent = some (hash parent)
  lower : ∀ below, layer.parent = .diff below → below < id
  filter : ∃ below : Block, tree.blockHashOf (.disk layer.origin) = some (hash below) ∧ Ancestor origin below ∧
    Ancestor below own ∧ below ≠ own ∧ ∀ between, Ancestor below between → below ≠ between → Ancestor between own →
      Holds layer.diffed ((changes between).bloomHashes hashers)

/-- The layers there are: one disk layer that is not stale, over which the others are. -/
structure Heap (hashers : Hashers Key) (origin : Block) (start : FlatState Key) (tree : Tree ID Root Key Filter) (base : Nat)
    (block : Block) : Prop where
  rooted : Ancestor origin block
  disk : ∃ layer, tree.disks base = some layer ∧ layer.blockHash = hash block ∧ layer.root = stateRoot block ∧ layer.stale = false ∧
    Coherent layer.genMarker tree.diskdb tree.cache ∧
    ∀ path, Path origin path block → ∀ item, covers layer.genMarker item = true → tree.diskdb item = stateAfter start path item
  former : ∀ id layer, tree.disks id = some layer → id ≠ base → layer.stale = true ∧
    ∃ old : Block, layer.blockHash = hash old ∧ Ancestor old block ∧ old ≠ block
  diffs : ∀ id layer, tree.diffs id = some layer → ∃ own : Block, layer.Stands hashers origin tree id own
  fresh : ∀ id, tree.next ≤ id → tree.disks id = none ∧ tree.diffs id = none

variable {hashers : Hashers Key} {origin block own : Block} {start : FlatState Key} {tree : Tree ID Root Key Filter} {base id : Nat}
  {layer : DiffLayer ID Root Key Filter} {item : Item Key}

namespace DiffLayer.Stands

omit [LinearOrder Key] in
/-- A layer is over the origin. -/
theorem rooted (stands : layer.Stands hashers origin tree id own) : Ancestor origin own ∧ origin ≠ own := by
  obtain ⟨below, _, based, above, other, _⟩ := stands.filter
  refine ⟨based.trans above, fun same => other ?_⟩
  rw [same] at based
  exact above.eq_of_level based.level_le

omit [LinearOrder Key] in
/-- The path to a layer's block goes through its parent. -/
theorem path (stands : layer.Stands hashers origin tree id own) {parent : Block} (step : IsParent parent own) {path : List Block}
    (leads : Path origin path own) : ∃ rest, path = rest ++ [own] ∧ Path origin rest parent := by
  rcases leads.exists_last with ⟨_, same⟩ | ⟨rest, found, whole, above, isParent⟩
  · exact absurd same stands.rooted.2
  · rw [Ancestry.parent_unique step isParent]
    exact ⟨rest, whole, above⟩

/-- What the layer says of an item is what the state of its block has. -/
theorem correct (stands : layer.Stands hashers origin tree id own) (start : FlatState Key) {data : Bytes}
    (found : layer.diff.find item = some data) : Correct origin start own item (.ok data) := by
  obtain ⟨parent, step, _⟩ := stands.parent
  intro path leads
  obtain ⟨rest, rfl, _⟩ := stands.path step leads
  rw [stands.diff] at found
  unfold stateAfter
  rw [List.foldl_append]
  exact (Diff.apply_of_find found).symm

/-- What the layer does not know of is as at its parent. -/
theorem of_parent (stands : layer.Stands hashers origin tree id own) {parent : Block} (step : IsParent parent own)
    (absent : layer.diff.find item = none) {result : Except ReadError Bytes} (below : Correct origin start parent item result) :
    Correct origin start own item result := by
  cases result with
  | error cause => cases cause <;> exact below
  | ok data =>
    intro path leads
    obtain ⟨rest, rfl, above⟩ := stands.path step leads
    rw [below rest above]
    rw [stands.diff] at absent
    unfold stateAfter
    rw [List.foldl_append]
    exact (Diff.apply_of_find_none absent).symm

end DiffLayer.Stands

/-- What no block between two changes is the same at both. -/
theorem Correct.of_between {below : Block} (based : Ancestor origin below)
    (above : Ancestor below own)
    (absent : ∀ between, Ancestor below between → below ≠ between → Ancestor between own → (changes between).find item = none)
    {result : Except ReadError Bytes} (correct : Correct origin start below item result) : Correct origin start own item result := by
  cases result with
  | error cause => cases cause <;> exact correct
  | ok data =>
    intro path leads
    obtain ⟨lower, reaches⟩ := Path.exists_of_ancestor based
    obtain ⟨upper, onwards⟩ := Path.exists_of_ancestor above
    rw [leads.unique (reaches.append onwards), correct lower reaches]
    unfold stateAfter
    rw [List.foldl_append]
    generalize lower.foldl (fun state block => (changes block).apply state) start = state
    clear leads correct reaches based
    induction upper using List.reverseRecOn generalizing own with
    | nil => rfl
    | append_singleton rest last ih =>
      rcases onwards.exists_last with ⟨impossible, _⟩ | ⟨front, parent, split, way, step⟩
      · cases List.append_eq_nil_iff.mp impossible with
        | intro _ impossible => cases impossible
      · obtain ⟨rfl, same⟩ := List.append_inj' split rfl
        obtain rfl : last = own := by simpa using same
        rw [List.foldl_append]
        have up := way.ancestor
        have other : below ≠ last := by
          intro same
          have next := Ancestry.level_child step
          have low := up.level_le
          rw [same] at low
          omega
        refine (ih up (fun between from_below distinct further => ?_) way).trans ?_
        · exact absent between from_below distinct (further.child step)
        · exact (Diff.apply_of_find_none (absent last above other (.refl last))).symm

/-! ## Reads -/

section

omit [SnapshotBlock Block Root Key] [LinearOrder Key] [BloomFilter Filter] in
theorem exists_disk {below : Block} (there : tree.blockHashOf (.disk id) = some (hash below)) :
    ∃ disk, tree.disks id = some disk ∧ disk.blockHash = hash below := by
  obtain ⟨disk, found, same⟩ := Option.map_eq_some_iff.mp there
  exact ⟨disk, found, same⟩

omit [SnapshotBlock Block Root Key] [LinearOrder Key] [BloomFilter Filter] in
theorem exists_diff {below : Block} (there : tree.blockHashOf (.diff id) = some (hash below)) :
    ∃ layer, tree.diffs id = some layer ∧ layer.blockHash = hash below := by
  obtain ⟨layer, found, same⟩ := Option.map_eq_some_iff.mp there
  exact ⟨layer, found, same⟩

variable (heap : Heap hashers origin start tree base block)

include heap

/-- A disk layer answers if it is the last one. -/
theorem Heap.readDisk {below : Block} (there : tree.blockHashOf (.disk id) = some (hash below)) (item : Item Key) :
    Correct origin start below item (tree.readDisk id item).1 := by
  obtain ⟨disk, found, named⟩ := exists_disk there
  obtain ⟨layer, current, named_current, -, -, coherent, agrees⟩ := heap.disk
  unfold Tree.readDisk
  rw [found]
  dsimp only
  split
  · trivial
  · next live =>
    split
    · trivial
    · next covered =>
      have last : id = base := by
        by_contra other
        exact live (heap.former id disk found other).1
      subst last
      obtain rfl : disk = layer := Option.some.inj (found.symm.trans current)
      obtain rfl : below = block := hash_injective (named.symm.trans named_current)
      have covered : covers disk.genMarker item = true := by simpa using covered
      split
      · next blob cached =>
        intro path leads
        rw [(coherent item blob cached).2]
        exact agrees path leads item covered
      · exact fun path leads => agrees path leads item covered

theorem Heap.readMaps {fuel : Nat} (found : tree.diffs id = some layer) (stands : layer.Stands hashers origin tree id own)
    (enough : id < fuel) : Correct origin start own item (tree.readMaps fuel id item).1 := by
  induction fuel generalizing id layer own with
  | zero => cases enough
  | succ fuel ih =>
    obtain ⟨parent, step, there⟩ := stands.parent
    unfold Tree.readMaps
    rw [found]
    dsimp only
    split
    · next data known => exact stands.correct start known
    · next unknown =>
      split
      · next lower over_diff =>
        have smaller := stands.lower lower over_diff
        rw [over_diff] at there
        obtain ⟨below, present, named⟩ := exists_diff there
        obtain ⟨other, below_stands⟩ := heap.diffs lower below present
        obtain rfl : other = parent := hash_injective (below_stands.blockHash.symm.trans named)
        exact stands.of_parent step unknown (ih present below_stands (by omega))
      · next lower over_disk =>
        rw [over_disk] at there
        exact stands.of_parent step unknown (heap.readDisk there item)

theorem Heap.readDiff (found : tree.diffs id = some layer) (stands : layer.Stands hashers origin tree id own) :
    Correct origin start own item (tree.readDiff hashers id item).1 := by
  unfold Tree.readDiff
  rw [found]
  dsimp only
  split
  · exact heap.readMaps found stands (Nat.lt_succ_self id)
  · next missed =>
    obtain ⟨below, there, based, above, _, held⟩ := stands.filter
    refine Correct.of_between based above (fun between from_below other further => ?_) (heap.readDisk there item)
    cases known : (changes between).find item with
    | none => rfl
    | some data =>
      exfalso
      refine missed ?_
      rw [Bool.or_eq_true]
      exact ((changes between).bloomHashes_of_find hashers known).imp (held between from_below other further _)
        (held between from_below other further _)

/-- Whatever is read through a layer is that of its block. -/
theorem Heap.read {ref : Ref} {named : Block} (there : tree.blockHashOf ref = some (hash named)) (item : Item Key) :
    Correct origin start named item (tree.read hashers ref item).1 := by
  cases ref with
  | disk id => exact heap.readDisk there item
  | diff id =>
    obtain ⟨layer, found, same⟩ := exists_diff there
    obtain ⟨other, stands⟩ := heap.diffs id layer found
    obtain rfl : other = named := hash_injective (stands.blockHash.symm.trans same)
    exact heap.readDiff found stands

end

/-! ## The cache -/

omit [BloomFilter Filter] in
/-- A read leaves the tree as it is, or puts into the cache what is on the disk and covered. -/
theorem readDisk_tree (tree : Tree ID Root Key Filter) (id : Nat) (item : Item Key) : (tree.readDisk id item).2 = tree ∨
    ∃ layer, tree.disks id = some layer ∧ layer.stale = false ∧ covers layer.genMarker item = true ∧
      (tree.readDisk id item).2 = { tree with cache := Function.update tree.cache item (some (tree.diskdb item)) } := by
  unfold Tree.readDisk
  split
  · exact .inl rfl
  · next layer found =>
    split
    · exact .inl rfl
    · next live =>
      split
      · exact .inl rfl
      · next covered =>
        split
        · exact .inl rfl
        · exact .inr ⟨layer, found, by simpa using live, by simpa using covered, rfl⟩

omit [BloomFilter Filter] in
theorem readMaps_tree (tree : Tree ID Root Key Filter) (fuel id : Nat) (item : Item Key) :
    (tree.readMaps fuel id item).2 = tree ∨ ∃ disk, (tree.readMaps fuel id item).2 = (tree.readDisk disk item).2 := by
  induction fuel generalizing id with
  | zero => exact .inl rfl
  | succ fuel ih =>
    unfold Tree.readMaps
    split
    · exact .inl rfl
    · split
      · exact .inl rfl
      · split
        · exact ih _
        · exact .inr ⟨_, rfl⟩

theorem read_tree (hashers : Hashers Key) (tree : Tree ID Root Key Filter) (ref : Ref) (item : Item Key) :
    (tree.read hashers ref item).2 = tree ∨ ∃ disk, (tree.read hashers ref item).2 = (tree.readDisk disk item).2 := by
  cases ref with
  | disk id => exact .inr ⟨id, rfl⟩
  | diff id =>
    show (tree.readDiff hashers id item).2 = tree ∨ ∃ disk, (tree.readDiff hashers id item).2 = _
    unfold Tree.readDiff
    split
    · exact .inl rfl
    · split
      · exact readMaps_tree tree _ id item
      · exact .inr ⟨_, rfl⟩

/-- Another disk under the same layers. -/
theorem Heap.store {diskdb : Item Key → Bytes} {cache : Item Key → Option Bytes} (heap : Heap hashers origin start tree base block)
    (holds : ∀ layer, tree.disks base = some layer → Coherent layer.genMarker diskdb cache ∧
      ∀ path, Path origin path block → ∀ item, covers layer.genMarker item = true → diskdb item = stateAfter start path item) :
    Heap hashers origin start { tree with diskdb := diskdb, cache := cache } base block := by
  obtain ⟨layer, current, named, root, live, -, -⟩ := heap.disk
  exact
    { rooted := heap.rooted
      disk := ⟨layer, current, named, root, live, holds layer current⟩
      former := heap.former
      diffs := fun id layer found => by
        obtain ⟨own, stands⟩ := heap.diffs id layer found
        exact ⟨own, { stands with }⟩
      fresh := heap.fresh }

theorem Heap.after_read (heap : Heap hashers origin start tree base block) (ref : Ref) (item : Item Key) :
    ∃ cache, (tree.read hashers ref item).2 = { tree with cache := cache } ∧
      Heap hashers origin start { tree with cache := cache } base block := by
  have still : ∃ cache, tree = { tree with cache := cache } ∧ Heap hashers origin start { tree with cache := cache } base block :=
    ⟨tree.cache, rfl, heap⟩
  have disk : ∀ id, ∃ cache, (tree.readDisk id item).2 = { tree with cache := cache } ∧
      Heap hashers origin start { tree with cache := cache } base block := by
    intro id
    rcases readDisk_tree tree id item with same | ⟨layer, found, live, covered, same⟩
    · rw [same]
      exact still
    · rw [same]
      refine ⟨_, rfl, heap.store fun current at_base => ?_⟩
      obtain ⟨known, there, -, -, -, coherent, agrees⟩ := heap.disk
      obtain rfl : current = known := Option.some.inj (at_base.symm.trans there)
      have last : id = base := by
        by_contra other
        rw [(heap.former id layer found other).1] at live
        cases live
      subst last
      obtain rfl : layer = current := Option.some.inj (found.symm.trans at_base)
      refine ⟨fun other blob cached => ?_, agrees⟩
      by_cases here : other = item
      · rw [here, Function.update_self] at cached
        rw [here]
        exact ⟨covered, (Option.some.inj cached).symm⟩
      · rw [Function.update_of_ne here] at cached
        exact coherent other blob cached
  rcases read_tree hashers tree ref item with same | ⟨id, same⟩
  · rw [same]
    exact still
  · rw [same]
    exact disk id

end

end Snowside.Snapshot
