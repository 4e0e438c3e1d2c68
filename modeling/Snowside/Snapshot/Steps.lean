import Snowside.Snapshot.Layers

/-! Insertions, rejections and flattenings keep the layers standing for their blocks. -/

set_option autoImplicit false

namespace Snowside.Snapshot

open Ancestry (Ancestor IsParent Path)
open Blockchain (ChainBlock hash hash_injective)
open SnapshotBlock (stateRoot changes)

section

variable {Block ID Root Key Filter : Type} [ChainBlock Block ID] [SnapshotBlock Block Root Key] [LinearOrder Key]
  [BloomFilter Filter] {hashers : Hashers Key} {origin block own : Block} {start : FlatState Key}
  {tree after : Tree ID Root Key Filter} {base id : Nat} {layer : DiffLayer ID Root Key Filter}

/-! ## Layers that stay -/

/-- No layer is another block's afterwards. -/
def Names (tree after : Tree ID Root Key Filter) : Prop :=
  ∀ ref key, tree.blockHashOf ref = some key → after.blockHashOf ref = some key

/-- Every layer stays, with its block and its root. -/
structure Carries (tree after : Tree ID Root Key Filter) : Prop where
  disks : ∀ id layer, tree.disks id = some layer →
    ∃ later, after.disks id = some later ∧ later.blockHash = layer.blockHash ∧ later.root = layer.root
  diffs : ∀ id layer, tree.diffs id = some layer →
    ∃ later, after.diffs id = some later ∧ later.blockHash = layer.blockHash ∧ later.root = layer.root

namespace Carries

omit [ChainBlock Block ID] [SnapshotBlock Block Root Key] [LinearOrder Key] [BloomFilter Filter]

theorem names (carries : Carries tree after) : Names tree after := by
  intro ref key there
  cases ref with
  | disk id =>
    obtain ⟨layer, found, named⟩ := Option.map_eq_some_iff.mp there
    obtain ⟨later, kept, same, _⟩ := carries.disks id layer found
    exact Option.map_eq_some_iff.mpr ⟨later, kept, same.trans named⟩
  | diff id =>
    obtain ⟨layer, found, named⟩ := Option.map_eq_some_iff.mp there
    obtain ⟨later, kept, same, _⟩ := carries.diffs id layer found
    exact Option.map_eq_some_iff.mpr ⟨later, kept, same.trans named⟩

theorem roots (carries : Carries tree after) {ref : Ref} {root : Root} (there : tree.rootOf ref = some root) :
    after.rootOf ref = some root := by
  cases ref with
  | disk id =>
    obtain ⟨layer, found, rooted⟩ := Option.map_eq_some_iff.mp there
    obtain ⟨later, kept, _, same⟩ := carries.disks id layer found
    exact Option.map_eq_some_iff.mpr ⟨later, kept, same.trans rooted⟩
  | diff id =>
    obtain ⟨layer, found, rooted⟩ := Option.map_eq_some_iff.mp there
    obtain ⟨later, kept, _, same⟩ := carries.diffs id layer found
    exact Option.map_eq_some_iff.mpr ⟨later, kept, same.trans rooted⟩

theorem refl (tree : Tree ID Root Key Filter) : Carries tree tree where
  disks _ layer found := ⟨layer, found, rfl, rfl⟩
  diffs _ layer found := ⟨layer, found, rfl, rfl⟩

end Carries

omit [LinearOrder Key] in
theorem DiffLayer.Stands.mono (stands : layer.Stands hashers origin tree id own) (names : Names tree after) :
    layer.Stands hashers origin after id own :=
  { stands with
    parent := by
      obtain ⟨parent, step, there⟩ := stands.parent
      exact ⟨parent, step, names _ _ there⟩
    filter := by
      obtain ⟨below, there, rest⟩ := stands.filter
      exact ⟨below, names _ _ there, rest⟩ }

/-- Other listings of the same layers. -/
theorem Heap.relist (heap : Heap hashers origin start tree base block) (blockLayers : Maps.Map ID Ref)
    (stateLayers : Maps.Map Root (Maps.Map ID Ref)) :
    Heap hashers origin start { tree with blockLayers := blockLayers, stateLayers := stateLayers } base block :=
  { rooted := heap.rooted
    disk := heap.disk
    former := heap.former
    diffs := fun id layer found => by
      obtain ⟨own, stands⟩ := heap.diffs id layer found
      exact ⟨own, stands.mono fun ref key there => there⟩
    fresh := heap.fresh }

/-! ## The filter of a layer -/

omit [LinearOrder Key] in
/-- The filter over a parent has the changes that the parent's has, and the layer's own. -/
theorem holds_bloom (tree : Tree ID Root Key Filter) (parent : Ref) {below above : Block} (step : IsParent above own)
    (lower : ∀ id layer, parent = .diff id → tree.diffs id = some layer → ∀ between, Ancestor below between → below ≠ between →
      Ancestor between above → Holds layer.diffed ((changes between).bloomHashes hashers))
    (there : ∀ id, parent = .diff id → tree.diffs id ≠ none) (bottom : ∀ id, parent = .disk id → below = above) (between : Block)
    (from_below : Ancestor below between) (other : below ≠ between) (further : Ancestor between own) :
    Holds (tree.bloom hashers parent (changes own)) ((changes between).bloomHashes hashers) := by
  unfold Tree.bloom
  by_cases same : between = own
  · rw [same]
    exact holds_foldl_addHash _ _
  · have under := further.of_child same step
    intro key member
    refine foldl_addHash_kept ?_
    cases parent with
    | disk id =>
      have low := under.level_le
      rw [← bottom id rfl] at under
      exact absurd (from_below.eq_of_level under.level_le) other
    | diff id =>
      cases found : tree.diffs id with
      | none => exact absurd found (there id rfl)
      | some layer =>
        dsimp only
        rw [found]
        exact lower id layer rfl found between from_below other under key member

/-! ## A new layer -/

omit [LinearOrder Key] [BloomFilter Filter] [ChainBlock Block ID] [SnapshotBlock Block Root Key] in
theorem carries_grown (fresh : ∀ id, tree.next ≤ id → tree.disks id = none ∧ tree.diffs id = none)
    (layer : DiffLayer ID Root Key Filter) :
    Carries tree (tree.grow layer) where
  disks _ found there := ⟨found, there, rfl, rfl⟩
  diffs id found there := by
    refine ⟨found, ?_, rfl, rfl⟩
    show Function.update tree.diffs tree.next (some layer) id = some found
    have other : id ≠ tree.next := by
      intro same
      rw [(fresh id (Nat.le_of_eq same.symm)).2] at there
      cases there
    rw [Function.update_of_ne other]
    exact there

theorem Heap.grow (heap : Heap hashers origin start tree base block)
    (stands : layer.Stands hashers origin tree tree.next own) :
    Heap hashers origin start (tree.grow layer) base block := by
  have names := (carries_grown heap.fresh layer).names
  refine
    { rooted := heap.rooted
      disk := heap.disk
      former := heap.former
      diffs := fun id found there => ?_
      fresh := fun id high => ?_ }
  · replace there : Function.update tree.diffs tree.next (some layer) id = some found := there
    by_cases new : id = tree.next
    · subst new
      rw [Function.update_self] at there
      obtain rfl := Option.some.inj there
      exact ⟨own, stands.mono names⟩
    · obtain ⟨other, stood⟩ := heap.diffs id found (by rwa [Function.update_of_ne new] at there)
      exact ⟨other, stood.mono names⟩
  · have high : tree.next + 1 ≤ id := high
    obtain ⟨disks, diffs⟩ := heap.fresh id (by omega)
    refine ⟨disks, ?_⟩
    show Function.update tree.diffs tree.next (some layer) id = none
    rw [Function.update_of_ne (by omega)]
    exact diffs

/-- A layer over a layer of the parent block. -/
theorem Heap.stands_new (heap : Heap hashers origin start tree base block) {parent : Ref} {above : Block} (step : IsParent above own)
    (there : tree.blockHashOf parent = some (hash above)) (current : ∀ id, parent = .disk id → id = base) {from_origin : Nat}
    (over_origin : tree.originOver parent = some from_origin) :
    DiffLayer.Stands hashers origin tree tree.next
      (⟨from_origin, parent, hash own, stateRoot own, changes own, tree.bloom hashers parent (changes own)⟩ :
        DiffLayer ID Root Key Filter) own := by
  have next := Ancestry.level_child step
  refine ⟨rfl, rfl, rfl, ⟨above, step, there⟩, fun below same => ?_, ?_⟩
  · obtain rfl : parent = .diff below := same
    by_contra high
    have there : (tree.diffs below).map DiffLayer.blockHash = some (hash above) := there
    rw [(heap.fresh below (Nat.le_of_not_lt high)).2] at there
    cases there
  · cases parent with
    | disk id =>
      obtain rfl := current id rfl
      obtain rfl : id = from_origin := Option.some.inj over_origin
      obtain ⟨disk, found, named, -⟩ := heap.disk
      obtain ⟨known, same, named_above⟩ := exists_disk there
      obtain rfl : disk = known := Option.some.inj (found.symm.trans same)
      obtain rfl : block = above := hash_injective (named.symm.trans named_above)
      refine ⟨block, there, heap.rooted, .of_parent step, fun same => ?_, ?_⟩
      · rw [same] at next
        omega
      · exact holds_bloom tree (.disk id) step (fun _ _ impossible => (by cases impossible)) (fun _ impossible => (by cases impossible))
          fun _ _ => rfl
    | diff id =>
      obtain ⟨lower, found, named⟩ := exists_diff there
      obtain ⟨found_own, stands⟩ := heap.diffs id lower found
      obtain rfl : found_own = above := hash_injective (stands.blockHash.symm.trans named)
      obtain ⟨below, at_origin, based, under, other, held⟩ := stands.filter
      have same_origin : lower.origin = from_origin := by
        have mapped : (tree.diffs id).map DiffLayer.origin = some from_origin := over_origin
        rw [found] at mapped
        exact Option.some.inj mapped
      refine ⟨below, same_origin ▸ at_origin, based, under.child step, fun same => ?_, ?_⟩
      · have low := under.level_le
        rw [same] at low
        omega
      · refine holds_bloom tree (.diff id) step (fun other_id layer same_id present => ?_) (fun other_id same_id => ?_)
          fun _ impossible => (by cases impossible)
        · cases same_id
          obtain rfl : layer = lower := Option.some.inj (present.symm.trans found)
          exact held
        · cases same_id
          rw [found]
          exact Option.some_ne_none lower

end

end Snowside.Snapshot
